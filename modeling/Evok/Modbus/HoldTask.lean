import Evok.Library.Run
import Evok.Modbus.Special

/-!
# The hold timer of `NvSave`

`NvSave.set` starts a timer which holds the value at 1 and then writes the coil, which may wait for
the serial buses of the unit. The timer goes on during the write, both of them clear the value.

## Main definitions

* `HoldTask.State`: the attributes with the timers and the calls of `set()`.
* `HoldTask.Step`: the segments of the calls and of the timers between two awaits.
* `HoldTask.held`: a timer was started, and since then it has not expired and no write has failed.

## Main results

* `HoldTask.Inv.step`: the timer of `hold_task` is the only one which runs.
* `HoldTask.consistent_iff`: the runs whose failed writes are reported.
-/

namespace Evok

namespace Modbus

namespace HoldTask

open Transition

variable {ε : Type}

/-- The task of `_hold()`. -/
inductive Timer
  /-- Created, it has not started. -/
  | created
  | sleeping
  /-- Cancelled in its sleep, it runs next with `CancelledError`. -/
  | cancelling
  | done
  deriving DecidableEq

/-- `task.cancel()`; a task which has not started does not run its `finally` block. -/
def Timer.cancel : Timer → Timer
  | created => done
  | sleeping => cancelling
  | t => t

/-- An exception of `set()`. -/
inductive Error (ε : Type)
  | set (e : SetError)
  /-- The error of the write of the coil. -/
  | write (e : ε)
  /-- `AttributeError`: `hold_task.cancel()` of `None`. -/
  | attribute
  | cancelled

/-- A call of `set()`: where it waits, or its result. -/
inductive Call (ε : Type)
  /-- For the serial buses of the unit. -/
  | holding
  /-- For the response to the request. -/
  | requesting
  /-- For the end of the sleeps after the request. -/
  | resting (result : Except ε Unit)
  | returned
  | raised (e : Error ε)

/-- The attributes of the device, its timers and the calls of `set()`. -/
structure State (ε : Type) where
  value : ℕ := 0
  holdTask : Option ℕ := none
  timers : List Timer := []
  calls : List (Call ε) := []

/-- What happens: a call of `set()`, a step of the call `i` or of the timer `t`. -/
inductive Event (ε : Type)
  /-- The first segment of a call, with the result of `set_alias`. -/
  | set (p : NvSave.Params) (aliasResult : Except SetError Unit)
  | request (i : ℕ)
  /-- The end of the request or of the wait for the buses. -/
  | response (i : ℕ) (result : Except ε Unit)
  | finish (i : ℕ)
  | fail (i : ℕ) (e : ε)
  | cancel (i : ℕ)
  | start (t : ℕ)
  | expire (t : ℕ)
  | stop (t : ℕ)

namespace State

variable (s : State ε)

def addCall (c : Call ε) : State ε :=
  { s with calls := s.calls ++ [c] }

def setCall (i : ℕ) (c : Call ε) : State ε :=
  { s with calls := s.calls.set i c }

/-- The text of the refused calls. -/
def inProgress (circuit : String) : Error ε :=
  .set (.value s!"NV save {circuit} is in progress, try it again later")

/-- The first segment of `set()`, up to the wait for the buses. -/
def set (circuit : String) (p : NvSave.Params) (aliasResult : Except SetError Unit) : State ε :=
  match aliasResult, p.value.mapM toBool with
  | .error e, _ | .ok (), .error e => s.addCall (.raised (.set e))
  | .ok (), .ok (some true) =>
    if s.holdTask.isSome then s.addCall (.raised (inProgress circuit))
    else
      { value := 1
        holdTask := some s.timers.length
        timers := s.timers ++ [.created]
        calls := s.calls ++ [.holding] }
  | .ok (), .ok _ => s.addCall .returned

/-- The `except` block of `set()`. -/
def fail (i : ℕ) (e : ε) : State ε :=
  match s.holdTask with
  | some t =>
    { value := 0
      holdTask := none
      timers := s.timers.modify t Timer.cancel
      calls := s.calls.set i (.raised (.write e)) }
  | none => s.setCall i (.raised .attribute)

/-- The `finally` block of `_hold()`, the end of the task. -/
def endHold (t : ℕ) : State ε :=
  if s.holdTask = some t then
    { s with value := 0, holdTask := none, timers := s.timers.set t .done }
  else { s with timers := s.timers.set t .done }

end State

section Step

-- the errors of a missing or a broken response are `missing`
variable (circuit : String) (missing : ε → Bool)

/-- The result of the write: a missing response is not an error. -/
def tolerate : Except ε Unit → Except ε Unit
  | .error e => if missing e then .ok () else .error e
  | .ok () => .ok ()

/-- The segments of `set()` and `_hold()`, in any order. -/
inductive Step : State ε → Event ε → State ε → Prop
  | set (s : State ε) (p : NvSave.Params) (aliasResult : Except SetError Unit) :
      Step s (.set p aliasResult) (s.set circuit p aliasResult)
  | request {s : State ε} {i : ℕ} (call : s.calls[i]? = some .holding) :
      Step s (.request i) (s.setCall i .requesting)
  | response {s : State ε} {i : ℕ} {result : Except ε Unit}
      (call : s.calls[i]? = some .requesting) :
      Step s (.response i result) (s.setCall i (.resting (tolerate missing result)))
  | holdError {s : State ε} {i : ℕ} {e : ε} (call : s.calls[i]? = some .holding) :
      Step s (.response i (.error e)) (s.setCall i (.resting (.error e)))
  | finish {s : State ε} {i : ℕ} (call : s.calls[i]? = some (.resting (.ok ()))) :
      Step s (.finish i) (s.setCall i .returned)
  | fail {s : State ε} {i : ℕ} {e : ε} (call : s.calls[i]? = some (.resting (.error e))) :
      Step s (.fail i e) (s.fail i e)
  /-- The task of the call is cancelled, which is not an `Exception`. -/
  | cancel {s : State ε} {i : ℕ}
      (call : s.calls[i]? = some .holding ∨ s.calls[i]? = some .requesting ∨
        ∃ result, s.calls[i]? = some (.resting result)) :
      Step s (.cancel i) (s.setCall i (.raised .cancelled))
  | start {s : State ε} {t : ℕ} (timer : s.timers[t]? = some .created) :
      Step s (.start t) { s with timers := s.timers.set t .sleeping }
  | expire {s : State ε} {t : ℕ} (timer : s.timers[t]? = some .sleeping) :
      Step s (.expire t) (s.endHold t)
  | stop {s : State ε} {t : ℕ} (timer : s.timers[t]? = some .cancelling) :
      Step s (.stop t) (s.endHold t)

end Step

/-! ## The invariant -/

/-- The params ask for a save. -/
def saves (p : NvSave.Params) (aliasResult : Except SetError Unit) : Bool :=
  match aliasResult, p.value.mapM toBool with
  | .ok (), .ok (some true) => true
  | _, _ => false

/-- A timer was started, and since then it has not expired and no write has failed. -/
def held : List (Event ε) → Bool :=
  List.foldl (fun held e =>
    match e with
    | .set p aliasResult => held || saves p aliasResult
    | .fail .. | .expire _ => false
    | _ => held) false

/-- The value follows the timer of `hold_task`, which is the only timer to run. -/
structure Inv (trace : List (Event ε)) (s : State ε) : Prop where
  value : s.value = if s.holdTask.isSome then 1 else 0
  held : s.holdTask.isSome = held trace
  running (t : ℕ) : s.timers[t]? = some .created ∨ s.timers[t]? = some .sleeping →
    s.holdTask = some t
  timer (t : ℕ) : s.holdTask = some t → s.timers[t]? = some .created ∨
    s.timers[t]? = some .sleeping

theorem held_append (trace : List (Event ε)) (e : Event ε) :
    HoldTask.held (trace ++ [e]) = match e with
      | .set p aliasResult => HoldTask.held trace || saves p aliasResult
      | .fail .. | .expire _ => false
      | _ => HoldTask.held trace := by
  rw [HoldTask.held, List.foldl_append]
  rfl

theorem Inv.init : Inv [] ({} : State ε) := by
  constructor <;> simp [HoldTask.held]

section State

variable (s : State ε) (circuit : String)

/-- A call which does not save changes the calls only. -/
theorem set_of_not_saves {p : NvSave.Params} {aliasResult : Except SetError Unit}
    (h : saves p aliasResult = false) : ∃ c, s.set circuit p aliasResult = s.addCall c := by
  unfold State.set
  unfold saves at h
  split
  · exact ⟨_, rfl⟩
  · exact ⟨_, rfl⟩
  · simp_all
  · exact ⟨_, rfl⟩

theorem set_of_saves {p : NvSave.Params} {aliasResult : Except SetError Unit}
    (h : saves p aliasResult) :
    s.set circuit p aliasResult = if s.holdTask.isSome then
        s.addCall (.raised (State.inProgress circuit))
      else
        { value := 1
          holdTask := some s.timers.length
          timers := s.timers ++ [.created]
          calls := s.calls ++ [.holding] } := by
  unfold saves at h
  split at h
  · next halias hvalue =>
    unfold State.set
    rw [hvalue]
  · cases h

end State

/-- A step which leaves the attributes and the timers alone keeps the invariant. -/
theorem Inv.congr {trace trace' : List (Event ε)} {s s' : State ε} (h : Inv trace s)
    (hheld : HoldTask.held trace' = HoldTask.held trace) (hvalue : s'.value = s.value)
    (hhold : s'.holdTask = s.holdTask) (htimers : s'.timers = s.timers) : Inv trace' s' := by
  constructor
  · rw [hvalue, hhold, h.value]
  · rw [hhold, hheld, h.held]
  · rw [hhold, htimers]
    exact h.running
  · rw [hhold, htimers]
    exact h.timer

section Invariant

variable {circuit : String} {missing : ε → Bool} {trace : List (Event ε)} {s s' : State ε}

theorem Inv.set (h : Inv trace s) (p : NvSave.Params) (aliasResult : Except SetError Unit) :
    Inv (trace ++ [.set p aliasResult]) (s.set circuit p aliasResult) := by
  cases hsaves : saves p aliasResult with
  | false =>
    obtain ⟨c, hset⟩ := set_of_not_saves s circuit hsaves
    rw [hset]
    refine h.congr ?_ rfl rfl rfl
    rw [held_append]
    simp [hsaves]
  | true =>
    rw [set_of_saves _ _ hsaves]
    split
    · next hheld =>
      refine h.congr ?_ rfl rfl rfl
      rw [held_append, ← h.held]
      simp [hheld]
    · next hfree =>
      have hnone : s.holdTask = none := Option.not_isSome_iff_eq_none.mp hfree
      have hidle : ∀ t : ℕ, ¬(s.timers[t]? = some .created ∨ s.timers[t]? = some .sleeping) := by
        intro t ht
        rw [h.running t ht] at hnone
        cases hnone
      constructor
      · rfl
      · rw [held_append]
        simp [hsaves]
      · intro t ht
        rw [List.getElem?_append] at ht
        split at ht
        · exact absurd ht (hidle t)
        · next hge =>
          have hzero : t - s.timers.length = 0 := by
            by_contra hne
            obtain ⟨n, hn⟩ := Nat.exists_eq_succ_of_ne_zero hne
            simp [hn] at ht
          exact congrArg some (by omega)
      · rintro t ⟨⟩
        simp

theorem Inv.fail (h : Inv trace s) (i : ℕ) (e : ε) :
    Inv (trace ++ [.fail i e]) (s.fail i e) := by
  unfold State.fail
  cases hhold : s.holdTask with
  | none =>
    refine h.congr ?_ rfl rfl rfl
    rw [held_append, ← h.held, hhold]
    rfl
  | some t =>
    constructor
    · rfl
    · rw [held_append]
      rfl
    · -- the timer is cancelled, there is no other one
      intro t' ht'
      exfalso
      dsimp only at ht'
      rw [List.getElem?_modify] at ht'
      by_cases heq : t = t'
      · subst heq
        cases htimer : s.timers[t]? with
        | none => simp [htimer] at ht'
        | some timer => cases timer <;> simp [htimer, Timer.cancel] at ht'
      · simp only [heq, if_false, Option.map_eq_map, Option.map_id'] at ht'
        have := h.running t' ht'
        rw [hhold] at this
        exact heq (Option.some.inj this)
    · rintro t' ⟨⟩

/-- The end of a timer; one which is not the one of `hold_task` is not running. -/
theorem Inv.endHold (h : Inv trace s) {t : ℕ} {event : Event ε}
    (timer : s.timers[t]? = some .sleeping ∧ event = .expire t ∨
      s.timers[t]? = some .cancelling ∧ event = .stop t) :
    Inv (trace ++ [event]) (s.endHold t) := by
  have hlt : t < s.timers.length := by
    rcases timer with ⟨ht, -⟩ | ⟨ht, -⟩ <;> exact (List.getElem?_eq_some_iff.mp ht).1
  rcases timer with ⟨ht, rfl⟩ | ⟨ht, rfl⟩
  · have hhold := h.running t (.inr ht)
    rw [State.endHold, if_pos hhold]
    constructor
    · rfl
    · rw [held_append]
      rfl
    · intro t' ht'
      dsimp only at ht'
      rw [List.getElem?_set] at ht'
      split at ht'
      · simp at ht'
      · next hne =>
        have := h.running t' ht'
        rw [hhold] at this
        exact absurd (Option.some.inj this) hne
    · rintro t' ⟨⟩
  · have hne : s.holdTask ≠ some t := by
      intro hhold
      rcases h.timer t hhold with hrun | hrun <;> rw [ht] at hrun <;> cases hrun
    rw [State.endHold, if_neg hne]
    constructor
    · exact h.value
    · rw [held_append]
      exact h.held
    · intro t' ht'
      dsimp only at ht'
      rw [List.getElem?_set] at ht'
      split at ht'
      · simp at ht'
      · exact h.running t' ht'
    · intro t' ht'
      have hother : t ≠ t' := by
        rintro rfl
        exact hne ht'
      simp only [List.getElem?_set_ne hother]
      exact h.timer t' ht'

theorem Inv.start (h : Inv trace s) {t : ℕ} (timer : s.timers[t]? = some .created) :
    Inv (trace ++ [.start t]) { s with timers := s.timers.set t .sleeping } := by
  have hhold := h.running t (.inl timer)
  have hlt := (List.getElem?_eq_some_iff.mp timer).1
  constructor
  · exact h.value
  · rw [held_append]
    exact h.held
  · intro t' ht'
    by_cases heq : t = t'
    · exact heq ▸ hhold
    · simp only [List.getElem?_set_ne heq] at ht'
      exact h.running t' ht'
  · intro t' ht'
    obtain rfl := Option.some.inj (hhold.symm.trans ht')
    exact .inr (by simp [hlt])

theorem Inv.step {e : Event ε} (h : Inv trace s) (step : Step circuit missing s e s') :
    Inv (trace ++ [e]) s' := by
  cases step with
  | set p aliasResult => exact h.set p aliasResult
  | fail call => exact h.fail _ _
  | expire timer => exact h.endHold (.inl ⟨timer, rfl⟩)
  | stop timer => exact h.endHold (.inr ⟨timer, rfl⟩)
  | start timer => exact h.start timer
  | _ => exact h.congr (held_append _ _) rfl rfl rfl

end Invariant

/-! ## The runs -/

section Runs

variable {circuit : String} {missing : ε → Bool} {es : List (Event ε)} {s s' : State ε}

theorem Inv.of_run (run : Run (Step circuit missing) {} es s) : Inv es s := by
  induction es using List.reverseRecOn generalizing s with
  | nil =>
    cases run
    exact Inv.init
  | append_singleton es e ih =>
    obtain ⟨u, first, last⟩ := run.split
    cases last with
    | cons head tail =>
      cases tail
      exact (ih first).step head

/-- The calls which have ended do not go on. -/
theorem raised_step {e : Event ε} (step : Step circuit missing s e s') {i : ℕ} {error : Error ε}
    (call : s.calls[i]? = some (.raised error)) :
    s'.calls[i]? = some (.raised error) ∧ e ≠ .request i := by
  have hother : ∀ {j : ℕ} {c : Call ε}, (s.calls[j]? = some c ∧ ∀ error, c ≠ .raised error) →
      ∀ c', (s.calls.set j c')[i]? = some (.raised error) := by
    intro j c hc c'
    rw [List.getElem?_set_ne, call]
    rintro rfl
    rw [call] at hc
    exact hc.2 error (Option.some.inj hc.1).symm
  have hadd : ∀ c, (s.addCall c).calls[i]? = some (.raised error) := by
    intro c
    rw [State.addCall]
    dsimp only
    rw [List.getElem?_append_left (List.getElem?_eq_some_iff.mp call).1, call]
  cases step with
  | set p aliasResult =>
    refine ⟨?_, by simp⟩
    cases hsaves : saves p aliasResult with
    | false =>
      obtain ⟨c, hset⟩ := set_of_not_saves s circuit hsaves
      rw [hset]
      exact hadd c
    | true =>
      rw [set_of_saves _ _ hsaves]
      split
      · exact hadd _
      · exact hadd _
  | request call' =>
    refine ⟨hother ⟨call', by simp⟩ _, ?_⟩
    rintro ⟨⟩
    rw [call] at call'
    cases call'
  | response call' => exact ⟨hother ⟨call', by simp⟩ _, by simp⟩
  | holdError call' => exact ⟨hother ⟨call', by simp⟩ _, by simp⟩
  | finish call' => exact ⟨hother ⟨call', by simp⟩ _, by simp⟩
  | fail call' =>
    refine ⟨?_, by simp⟩
    unfold State.fail
    split
    · exact hother ⟨call', by simp⟩ _
    · exact hother ⟨call', by simp⟩ _
  | cancel call' =>
    refine ⟨?_, by simp⟩
    rcases call' with call' | call' | ⟨result, call'⟩
    · exact hother ⟨call', by simp⟩ _
    · exact hother ⟨call', by simp⟩ _
    · exact hother ⟨call', by simp⟩ _
  | start timer => exact ⟨call, by simp⟩
  | expire timer =>
    refine ⟨?_, by simp⟩
    unfold State.endHold
    split <;> exact call
  | stop timer =>
    refine ⟨?_, by simp⟩
    unfold State.endHold
    split <;> exact call

/-- A call which has raised sends no request later. -/
theorem request_not_mem (run : Run (Step circuit missing) s es s') {i : ℕ} {error : Error ε}
    (call : s.calls[i]? = some (.raised error)) : Event.request i ∉ es := by
  induction run with
  | nil => simp
  | cons head _ ih =>
    obtain ⟨call', hne⟩ := raised_step head call
    rw [List.mem_cons, not_or]
    exact ⟨hne.symm, ih call'⟩

/-- What `set()` promises of a run: the value is 1 exactly while a hold timer is set, a call during
it sends no request and raises, and a failed write is reported and ends the hold. -/
structure Consistent (circuit : String) (missing : ε → Bool) (es : List (Event ε)) : Prop where
  value : ∀ before after u, es = before ++ after → Run (Step circuit missing) {} before u →
    (u.value = 1 ↔ u.holdTask ≠ none)
  refused : ∀ before p aliasResult after u u', es = before ++ .set p aliasResult :: after →
    Run (Step circuit missing) {} before u → Step circuit missing u (.set p aliasResult) u' →
    saves p aliasResult → u.holdTask ≠ none →
      u' = u.addCall (.raised (State.inProgress circuit)) ∧
        ∀ later v, Run (Step circuit missing) u' later v → .request u.calls.length ∉ later
  failed : ∀ before i e after u u', es = before ++ .fail i e :: after →
    Run (Step circuit missing) {} before u → Step circuit missing u (.fail i e) u' →
      u'.calls[i]? = some (.raised (.write e)) ∧ u'.value = 0 ∧ u'.holdTask = none ∧
        ∀ p aliasResult u'', saves p aliasResult →
          Step circuit missing u' (.set p aliasResult) u'' →
            u''.value = 1 ∧ u''.calls[u'.calls.length]? = some .holding

/-- The call after the end of the hold is accepted. -/
theorem accepted (free : s.holdTask = none) {p : NvSave.Params} {aliasResult : Except SetError Unit}
    (hsaves : saves p aliasResult) (step : Step circuit missing s (.set p aliasResult) s') :
    s'.value = 1 ∧ s'.calls[s.calls.length]? = some .holding := by
  cases step
  rw [set_of_saves _ _ hsaves, if_neg (by simp [free])]
  exact ⟨rfl, by simp⟩

/-- A run is consistent if and only if every write fails while the timer is held: since the last
call which saves no timer has expired and no write has failed. -/
theorem consistent_iff (run : Run (Step circuit missing) {} es s) :
    Consistent circuit missing es ↔
      ∀ before i e after, es = before ++ .fail i e :: after → held before = true := by
  constructor
  · rintro consistent before i e after rfl
    obtain ⟨u, first, rest⟩ := run.split
    cases rest with
    | cons head tail =>
      obtain ⟨hcall, -⟩ := consistent.failed before i e after u _ rfl first head
      have hheld := (Inv.of_run first).held
      cases hhold : u.holdTask with
      | some t => rw [← hheld, hhold]; rfl
      | none =>
        -- the `except` block raises another error
        cases head with
        | fail call =>
          have hlt := (List.getElem?_eq_some_iff.mp call).1
          simp [State.fail, hhold, State.setCall, hlt] at hcall
  · intro hfails
    constructor
    · intro before after u _ first
      have hvalue := (Inv.of_run first).value
      cases hhold : u.holdTask with
      | none => simp [hvalue, hhold]
      | some t => simp [hvalue, hhold]
    · intro before p aliasResult after u u' _ _ step hsaves hhold
      cases step
      have hset : u.set circuit p aliasResult =
          u.addCall (.raised (State.inProgress circuit)) := by
        rw [set_of_saves _ _ hsaves, if_pos (Option.isSome_iff_ne_none.mpr hhold)]
      have hcall : (u.set circuit p aliasResult).calls[u.calls.length]? =
          some (.raised (State.inProgress circuit)) := by
        rw [hset, State.addCall]
        simp
      exact ⟨hset, fun later v hlater => request_not_mem hlater hcall⟩
    · intro before i e after u u' hsplit first step
      have hheld := (Inv.of_run first).held
      rw [hfails before i e after hsplit] at hheld
      obtain ⟨t, hhold⟩ := Option.isSome_iff_exists.mp hheld
      cases step with
      | fail call =>
        have hlt := (List.getElem?_eq_some_iff.mp call).1
        have hfail : u.fail i e = ⟨0, none, u.timers.modify t Timer.cancel,
            u.calls.set i (.raised (.write e))⟩ := by
          rw [State.fail, hhold]
        rw [hfail]
        refine ⟨by simp [hlt], rfl, rfl, fun p aliasResult u'' hsaves step => ?_⟩
        exact accepted rfl hsaves step

end Runs

/-- `set(value=1)`. -/
def save : Event Unit :=
  .set { value := some (.int 1) } (.ok ())

/-- A write fails at once. -/
theorem consistent_early :
    Consistent "1" (fun _ => false)
      [save, .start 0, .request 0, .response 0 (.error ()), .fail 0 ()] := by
  have run : Run (Step "1" fun _ => false) {}
      [save, .start 0, .request 0, .response 0 (.error ()), .fail 0 ()] _ :=
    .cons (.set _ _ _) <| .cons (.start rfl) <| .cons (.request rfl) <| .cons (.response rfl) <|
      .cons (.fail rfl) <| .nil _
  refine (consistent_iff run).mpr fun before i e after hsplit => ?_
  have hlast : [save, .start 0, .request 0, .response 0 (.error ())] ++ [.fail 0 ()] =
      before ++ .fail i e :: after := hsplit
  rcases Trace.concat_eq_append_cons.mp hlast with ⟨rfl, -, -⟩ | ⟨rest, hrest, -⟩
  · rfl
  · have mem : Event.fail i e ∈ [save, .start 0, .request 0, .response 0 (.error ())] := by
      rw [hrest]
      simp
    simp [save] at mem

/-- The timer expires while the write waits for the buses, the error of the write is replaced by
another one. -/
theorem not_consistent :
    (∃ s, Run (Step "1" fun _ => false) {}
      [save, .start 0, .expire 0, .request 0, .response 0 (.error ()), .fail 0 ()] s) ∧
    ¬Consistent "1" (fun _ => false)
      [save, .start 0, .expire 0, .request 0, .response 0 (.error ()), .fail 0 ()] := by
  have run : ∃ s, Run (Step "1" fun _ => false) {}
      [save, .start 0, .expire 0, .request 0, .response 0 (.error ())] s ∧
        Step "1" (fun _ => false) s (.fail 0 ()) (s.fail 0 ()) ∧
          ¬(s.fail 0 ()).calls[0]? = some (.raised (.write ())) :=
    ⟨_, .cons (.set _ _ _) <| .cons (.start rfl) <| .cons (.expire rfl) <| .cons (.request rfl) <|
      .cons (.response rfl) <| .nil _, .fail rfl, fun h => by cases h⟩
  obtain ⟨s, run, step, hother⟩ := run
  refine ⟨⟨_, run.append (.single step)⟩, fun consistent => hother ?_⟩
  exact (consistent.failed _ 0 () [] s _ rfl run step).1

end HoldTask

end Modbus

end Evok
