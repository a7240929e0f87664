import Mathlib.Data.List.Chain
import Evok.Sequencer.Locks

/-!
# The progress of a sequence

What the task of a sequence writes next is a function of its last write: `Sequence.next` is the
plan of a sequence, without the locks, the reads and the other tasks. The task follows the plan
until the sequence is removed.

## Main definitions

* `Sequence.next`, `Trace` : the plan of a sequence and the writes along it.
* `Sequencer.Tracks` : a task follows the plan of its sequence.

## Main results

* `Trace.successes` : the successful writes along the plan.
* `Sequencer.sequence_progress` : the writes and the registration of a sequence in any run.
-/


namespace Evok

section Plan

variable {P : Type*} [DecidableEq P] {q : Sequence P}

/-- What a sequence writes after a write, `none` ends it: the next step, the same one again, or
the final state instead of a refused step. -/
def Sequence.next (q : Sequence P) (w : Work) : Outcome → Option Work
  | .success => match w with
    | .step i => if q.last w then none else some (.step (i + 1))
    | .final _ => none
  | .failed e =>
    if e.retried then some w
    else match w with
      | .step i => if q.final.isSome && q.final ≠ q.steps[i]? then some (.final i) else none
      | .final _ => none

/-- The writes of a sequence along its plan, with the work after them. -/
inductive Trace (q : Sequence P) : List (Work × Outcome) → Option Work → Prop
  | nil : Trace q [] (some (.step 0))
  | snoc {as : List (Work × Outcome)} {w : Work} (h : Trace q as (some w)) (o : Outcome) :
      Trace q (as ++ [(w, o)]) (q.next w o)

/-- The number of the steps written. -/
def stepsDone (as : List (Work × Outcome)) : Nat :=
  as.countP fun a => match a with | (.step _, .success) => true | _ => false

@[simp] theorem stepsDone_step {as : List (Work × Outcome)} {i : Nat} :
    stepsDone (as ++ [(.step i, .success)]) = stepsDone as + 1 := by simp [stepsDone]
@[simp] theorem stepsDone_final {as : List (Work × Outcome)} {i : Nat} {o : Outcome} :
    stepsDone (as ++ [(.final i, o)]) = stepsDone as := by simp [stepsDone]
@[simp] theorem stepsDone_failed {as : List (Work × Outcome)} {w : Work} {e : SetError} :
    stepsDone (as ++ [(w, .failed e)]) = stepsDone as := by simp [stepsDone]

/-- The successful writes. -/
def successes (as : List (Work × Outcome)) : List Work :=
  as.filterMap fun a => if a.2 = .success then some a.1 else none

/-- The steps done before the work. -/
def Work.index : Work → Nat
  | .step i | .final i => i

/-- A write `b` may follow the write `a`. -/
inductive Sequence.Follows (q : Sequence P) : Work × Outcome → Work × Outcome → Prop
  | next (i : Nat) (o : Outcome) : q.Follows (.step i, .success) (.step (i + 1), o)
  | again (w : Work) {e : SetError} (retried : e.retried = true) (o : Outcome) :
      q.Follows (w, .failed e) (w, o)
  | finalState (i : Nat) {e : SetError} {p : P} (refused : e.retried = false)
      (final : q.final = some p) (differs : q.steps[i]? ≠ some p) (o : Outcome) :
      q.Follows (.step i, .failed e) (.final i, o)

/-- The last write was refused and there is nothing to write instead of it. -/
def Sequence.Refused (q : Sequence P) (as : List (Work × Outcome)) : Prop :=
  ∃ w e, as.getLast? = some (w, .failed e) ∧ e.retried = false ∧
    ∀ i, w = .step i → q.final = none ∨ q.final = q.steps[i]?

theorem Sequence.next_refused {w : Work} {e : SetError} (notRetried : e.retried = false)
    (noFinal : ∀ i, w = .step i → q.final = none ∨ q.final = q.steps[i]?) :
    q.next w (.failed e) = none := by
  cases w with
  | final i => simp [Sequence.next, notRetried]
  | step i => rcases noFinal i rfl with h | h <;> simp [Sequence.next, notRetried, h]

namespace Trace

variable {as : List (Work × Outcome)} {n : Option Work} {w : Work} {o : Outcome}

theorem next_eq (h : Trace q as n) (last : as.getLast? = some (w, o)) : n = q.next w o := by
  cases h with
  | nil => simp at last
  | snoc h o' =>
    rw [List.getLast?_append] at last
    simp_all

theorem follows_of_next {a b : Work × Outcome} (h : q.next a.1 a.2 = some b.1) :
    q.Follows a b := by
  obtain ⟨w, o⟩ := a
  obtain ⟨v, o'⟩ := b
  cases o with
  | success =>
    cases w with
    | step i =>
      simp only [Sequence.next] at h
      split at h
      · cases h
      · cases h
        exact .next i o'
    | final i => cases h
  | failed e =>
    simp only [Sequence.next] at h
    split at h
    · next retried =>
      cases h
      exact .again w retried o'
    · next refused =>
      cases w with
      | step i =>
        by_cases final : (q.final.isSome && decide (q.final ≠ q.steps[i]?)) = true
        · simp only [final, if_true, Option.some.injEq] at h
          subst h
          obtain ⟨some, differs⟩ : q.final.isSome = true ∧ q.final ≠ q.steps[i]? := by
            simpa using final
          obtain ⟨p, hp⟩ := Option.isSome_iff_exists.mp some
          exact .finalState i (by simpa using refused) hp (fun e => differs (hp.trans e.symm)) o'
        · simp only [final] at h
          cases h
      | final i => cases h

/-- Each write follows the one before it. -/
theorem isChain (h : Trace q as n) : as.IsChain q.Follows := by
  induction h with
  | nil => exact .nil
  | @snoc as w h o ih =>
    refine List.IsChain.append ih (.singleton _) ?_
    rintro ⟨v, o'⟩ hv b hb
    obtain rfl : b = (w, o) := by simpa using hb.symm
    exact follows_of_next (h.next_eq hv).symm

/-- The first write is the first step. -/
theorem head (h : Trace q as n) : ∀ a ∈ as.head?, a.1 = .step 0 := by
  induction h with
  | nil => simp
  | @snoc as w h o ih =>
    generalize hn : some w = m at h
    cases h with
    | nil => simpa using hn
    | snoc h' o' => simpa [List.head?_append] using ih

/-- The successful writes are the steps in their order, and the final state at most once. -/
theorem successes (h : Trace q as n) :
    stepsDone as ≤ q.steps.length ∧
    (∀ w, n = some w → Evok.successes as = (List.range (stepsDone as)).map .step ∧
      w.index = stepsDone as ∧ stepsDone as < q.steps.length) ∧
    (Evok.successes as = (List.range (stepsDone as)).map .step ∨
      Evok.successes as = (List.range (stepsDone as)).map .step ++ [.final (stepsDone as)]) := by
  induction h with
  | nil =>
    have := List.length_pos_iff.mpr q.nonempty
    refine ⟨Nat.zero_le _, ?_, .inl rfl⟩
    rintro w ⟨⟩
    exact ⟨rfl, rfl, this⟩
  | @snoc as w h o ih =>
    obtain ⟨done, index, bound⟩ := ih.2.1 w rfl
    cases o with
    | failed e =>
      have same : Evok.successes (as ++ [(w, .failed e)]) = Evok.successes as := by
        simp [Evok.successes]
      rw [same, stepsDone_failed]
      refine ⟨bound.le, fun v hv => ⟨done, ?_, bound⟩, .inl done⟩
      cases follows_of_next (a := (w, .failed e)) (b := (v, .success)) hv with
      | again => exact index
      | finalState => exact index
    | success =>
      cases w with
      | step i =>
        obtain rfl : i = stepsDone as := index
        have more : Evok.successes (as ++ [(.step (stepsDone as), .success)]) =
            Evok.successes as ++ [.step (stepsDone as)] := by
          simp [Evok.successes]
        rw [more, stepsDone_step, List.range_succ, List.map_append, done]
        refine ⟨bound, ?_, .inl rfl⟩
        intro v hv
        cases follows_of_next (a := (.step (stepsDone as), .success)) (b := (v, .success)) hv
        refine ⟨by simp, rfl, ?_⟩
        have notLast : stepsDone as + 1 ≠ q.steps.length := by
          intro last
          simp [Sequence.next, Sequence.last, last] at hv
        omega
      | final i =>
        obtain rfl : i = stepsDone as := index
        have more : Evok.successes (as ++ [(.final (stepsDone as), .success)]) =
            Evok.successes as ++ [.final (stepsDone as)] := by
          simp [Evok.successes]
        rw [more, stepsDone_final, done]
        refine ⟨bound.le, ?_, .inr rfl⟩
        intro v hv
        cases hv

/-- The last work was written exactly when all steps or the final state were written. -/
theorem last_written_iff (h : Trace q as n) :
    (∃ w, as.getLast? = some (w, .success) ∧ q.last w = true) ↔
      stepsDone as = q.steps.length ∨ ∃ i, .final i ∈ Evok.successes as := by
  cases h with
  | nil =>
    have := List.length_pos_iff.mpr q.nonempty
    simp [stepsDone, Evok.successes]
    omega
  | @snoc as w h o =>
    obtain ⟨done, index, bound⟩ := h.successes.2.1 w rfl
    have noFinal : ∀ i, Work.final i ∉ Evok.successes as := by simp [done]
    cases o with
    | failed e =>
      have same : Evok.successes (as ++ [(w, .failed e)]) = Evok.successes as := by
        simp [Evok.successes]
      simp [same, noFinal, bound.ne]
    | success =>
      cases w with
      | step i =>
        obtain rfl : i = stepsDone as := index
        have more : Evok.successes (as ++ [(.step (stepsDone as), .success)]) =
            Evok.successes as ++ [.step (stepsDone as)] := by
          simp [Evok.successes]
        simp [more, noFinal, Sequence.last]
      | final i =>
        have more : Evok.successes (as ++ [(.final i, .success)]) =
            Evok.successes as ++ [.final i] := by
          simp [Evok.successes]
        simp [more, Sequence.last]

end Trace

end Plan

namespace Sequencer

variable {D U P : Type*} {unit : D → U}
  {s s' : Sequencer D U P} {d : D} {k : Nat} {t a : Task D P} {l : Event D}

/-- The ended `device.set()` of the task of a sequence. -/
def attempts (s : Sequencer D U P) (k : Nat) : List (Work × Outcome) :=
  s.log.filterMap fun x => match x.writer with
    | .task k' w => if k' = k then some (w, x.outcome) else none
    | _ => none

theorem attempts_congr (h : s'.log = s.log) (k : Nat) : s'.attempts k = s.attempts k := by
  simp [attempts, h]

theorem attempts_task {w : Work} {o : Outcome} (h : s'.log = s.log ++ [⟨.task k w, d, o⟩])
    (j : Nat) : s'.attempts j = if j = k then s.attempts j ++ [(w, o)] else s.attempts j := by
  by_cases hj : j = k
  · subst hj
    simp [attempts, h]
  · simp [attempts, h, hj, Ne.symm hj]

theorem attempts_other {x : Writer} {o : Outcome} (h : s'.log = s.log ++ [⟨x, d, o⟩])
    (other : ∀ k w, x ≠ .task k w) (j : Nat) : s'.attempts j = s.attempts j := by
  cases x with
  | task k w => exact absurd rfl (other k w)
  | _ => simp [attempts, h]

@[simp] theorem attempts_advance [DecidableEq D] (j : Nat) :
    (s.advance k t).attempts j = s.attempts j :=
  attempts_congr advance_log j

theorem attempts_setLock [DecidableEq U] {u : U} {x : Option (Holder D)} (j : Nat) :
    (s.setLock u x).attempts j = s.attempts j := rfl

variable [DecidableEq P]

/-- The task follows the plan of its sequence. -/
structure Tracks (as : List (Work × Outcome)) (t : Task D P) : Prop where
  trace : ∃ n, Trace t.sequence as n
  next : ∀ w, t.phase = .sleeping w ∨ t.phase = .waiting w ∨ t.phase = .writing w →
    Trace t.sequence as (some w)
  skipped : ∀ w, t.phase = .reading w .skipped → t.removed = true
  applied : ∀ w, t.phase = .reading w .applied → as.getLast? = some (w, .success)
  failed : ∀ w e, t.phase = .reading w (.failed e) → as.getLast? = some (w, .failed e)
  step : t.step = stepsDone as
  finished : t.finished = true ↔ ∃ w, as.getLast? = some (w, .success) ∧ t.sequence.last w = true
  ended : t.phase = .ended → t.removed = false → t.finished = false → t.sequence.Refused as

namespace Tracks

variable {as : List (Work × Outcome)}

theorem new (d : D) (q : Sequence P) : Tracks [] ({ device := d, sequence := q } : Task D P) where
  trace := ⟨_, .nil⟩
  next w hw := by
    obtain rfl : w = .step 0 := by simpa [eq_comm] using hw
    exact .nil
  skipped w hw := by simp at hw
  applied w hw := by simp at hw
  failed w e hw := by simp at hw
  step := rfl
  finished := by simp
  ended h := by simp at h

theorem stop (h : Tracks as t) : Tracks as t.stop where
  trace := by simpa using h.trace
  next := by simpa using h.next
  skipped := by simp
  applied := by simpa using h.applied
  failed := by simpa using h.failed
  step := by simpa using h.step
  finished := by simpa using h.finished
  ended := by simp

/-- A task with work to do has not written its last one. -/
theorem not_finished (h : Tracks as t) {w : Work} (trace : Trace t.sequence as (some w)) :
    t.finished = false := by
  by_contra hf
  obtain ⟨v, last, hv⟩ := h.finished.mp (by simpa using hf)
  have := trace.next_eq last
  cases v <;> simp [Sequence.next, hv] at this

/-- A task awaits its next work. -/
theorem go (h : Tracks as t) {w : Work} {p : Phase} (trace : Trace t.sequence as (some w))
    (hp : p = .sleeping w ∨ p = .waiting w ∨ p = .writing w) :
    Tracks as { t with phase := p } where
  trace := h.trace
  next v hv := by
    obtain rfl : v = w := by rcases hp with rfl | rfl | rfl <;> simpa [eq_comm] using hv
    exact trace
  skipped v hv := by rcases hp with rfl | rfl | rfl <;> simp at hv
  applied v hv := by rcases hp with rfl | rfl | rfl <;> simp at hv
  failed v e hv := by rcases hp with rfl | rfl | rfl <;> simp at hv
  step := h.step
  finished := h.finished
  ended hv := by rcases hp with rfl | rfl | rfl <;> simp at hv

/-- A task finds its sequence removed under the lock. -/
theorem skip (h : Tracks as t) (w : Work) (removed : t.removed = true) :
    Tracks as { t with phase := .reading w .skipped } where
  trace := h.trace
  next v hv := by simp at hv
  skipped _ _ := removed
  applied v hv := by simp at hv
  failed v e hv := by simp at hv
  step := h.step
  finished := h.finished
  ended hv := by simp at hv

theorem stopped (h : Tracks as t)
    (ended : t.removed = false → t.finished = false → t.sequence.Refused as) :
    Tracks as { t with phase := .ended } where
  trace := h.trace
  next w hw := by simp at hw
  skipped w hw := by simp at hw
  applied w hw := by simp at hw
  failed w e hw := by simp at hw
  step := h.step
  finished := h.finished
  ended _ := ended

/-- A sequence refused for good is in the read after the refused write. -/
theorem refused_reading (h : Tracks as t) (refused : t.sequence.Refused as)
    (kept : t.removed = false) (live : t.phase ≠ .ended) :
    ∃ w e, t.phase = .reading w (.failed e) := by
  obtain ⟨w, e, last, notRetried, noFinal⟩ := refused
  have next : ∀ v, ¬ Trace t.sequence as (some v) := by
    intro v hv
    have := hv.next_eq last
    rw [Sequence.next_refused notRetried noFinal] at this
    cases this
  cases hp : t.phase with
  | ended => exact absurd hp live
  | sleeping v => exact absurd (h.next v (.inl hp)) (next v)
  | waiting v => exact absurd (h.next v (.inr (.inl hp))) (next v)
  | writing v => exact absurd (h.next v (.inr (.inr hp))) (next v)
  | reading v r =>
    cases r with
    | failed e' => exact ⟨v, e', rfl⟩
    | skipped => simp [h.skipped v hp] at kept
    | applied => simp [h.applied v hp] at last

theorem afterSet (h : Tracks as t) {w : Work} (hp : t.phase = .writing w) (o : Outcome) :
    Tracks (as ++ [(w, o)]) (t.afterSet w o) := by
  have trace := h.next w (.inr (.inr hp))
  have unfinished := h.not_finished trace
  have index : w.index = stepsDone as := (trace.successes.2.1 w rfl).2.1
  refine ⟨⟨_, by simpa using trace.snoc o⟩, ?_, ?_, ?_, ?_, ?_, ?_, ?_⟩
  case refine_5 =>
    cases o with
    | failed e => simp [Task.afterSet, h.step]
    | success => cases w <;> simpa [Task.afterSet, Work.number, Work.index] using index
  all_goals cases o <;> simp [Task.afterSet, unfinished]

/-- After its read a task goes on with its plan, or it ends. -/
theorem afterRead (h : Tracks as t) {w : Work} {r : Result} (hp : t.phase = .reading w r)
    {current : Bool} (hc : current = true ↔ t.removed = false ∧ t.finished = false) :
    Tracks as (t.afterRead current w r) := by
  obtain ⟨n, trace⟩ := h.trace
  have gone : current = false → t.removed = false → t.finished = false → t.sequence.Refused as :=
    fun hf hr hn => by simp [hc.mpr ⟨hr, hn⟩] at hf
  cases r with
  | skipped =>
    have removed := h.skipped w hp
    cases w <;> exact h.stopped fun hr => by simp [removed] at hr
  | applied =>
    have last := h.applied w hp
    have finished : t.sequence.last w = true → t.finished = true :=
      fun hl => h.finished.mpr ⟨w, last, hl⟩
    cases w with
    | final i => exact h.stopped fun _ hn => by simp [finished rfl] at hn
    | step i =>
      simp only [Task.afterRead]
      split
      · next hl => exact h.stopped fun _ hn => by simp [finished hl] at hn
      · next hl =>
        split
        · have next : n = some (.step (i + 1)) := by
            simpa [Sequence.next, hl] using trace.next_eq last
          exact h.go (next ▸ trace) (.inl rfl)
        · next hcur => exact h.stopped (gone (by simpa using hcur))
  | failed e =>
    have last := h.failed w e hp
    have next := trace.next_eq last
    have unfinished : t.finished = false := by
      by_contra hf
      obtain ⟨v, success, -⟩ := h.finished.mp (by simpa using hf)
      simp [last] at success
    by_cases retried : e.retried = true
    · have again : Tracks as (if current then { t with phase := .sleeping w }
          else { t with phase := .ended }) := by
        split
        · exact h.go (by simpa [next, Sequence.next, retried] using trace) (.inl rfl)
        · next hcur => exact h.stopped (gone (by simpa using hcur))
      cases w <;> simpa only [Task.afterRead, retried, if_true] using again
    · have refused : e.retried = false := by simpa using retried
      cases w with
      | final i =>
        simp only [Task.afterRead, refused]
        exact h.stopped fun _ _ => ⟨_, e, last, refused, by simp⟩
      | step i =>
        simp only [Task.afterRead, refused, Bool.false_eq_true, if_false]
        by_cases final : (t.sequence.final.isSome &&
          decide (t.sequence.final ≠ t.sequence.steps[i]?)) = true
        · rw [final, Bool.true_and]
          have next' : n = some (.final i) := by
            simp only [next, Sequence.next, refused, Bool.false_eq_true, if_false, if_pos final]
          split
          · exact h.go (next' ▸ trace) (.inr (.inl rfl))
          · next hcur => exact h.stopped (gone (by simpa using hcur))
        · have none : t.sequence.final = none ∨ t.sequence.final = t.sequence.steps[i]? := by
            simp only [Bool.and_eq_true, decide_eq_true_eq, not_and, not_not] at final
            cases hf : t.sequence.final with
            | none => exact .inl rfl
            | some p => exact .inr (hf ▸ final (by simp [hf]))
          rw [Bool.eq_false_iff.mpr final, Bool.false_and, if_neg (by simp)]
          exact h.stopped fun _ _ => ⟨_, e, last, refused, fun j hj => by cases hj; exact none⟩

end Tracks

/-- Every task follows the plan of its sequence. -/
structure Tracked (s : Sequencer D U P) : Prop where
  tracks : ∀ (k : Nat) (t : Task D P), s.tasks[k]? = some t → Tracks (s.attempts k) t
  known : ∀ k : Nat, s.tasks[k]? = none → s.attempts k = []

namespace Tracked

theorem congr (h : s.Tracked) (tasks : s'.tasks = s.tasks)
    (log : ∀ k, s'.attempts k = s.attempts k) : s'.Tracked :=
  ⟨by simpa [tasks, log] using h.tracks, by simpa [tasks, log] using h.known⟩

/-- A step of a task. -/
theorem own (h : s.Tracked) (ht : s.tasks[k]? = some t) (tasks : s'.tasks = s.tasks.set k a)
    (log : ∀ j, j ≠ k → s'.attempts j = s.attempts j) (track : Tracks (s'.attempts k) a) :
    s'.Tracked where
  tracks j b hb := by
    by_cases hj : j = k
    · subst hj
      obtain rfl : a = b := by grind
      exact track
    · rw [log j hj]
      exact h.tracks j b (by grind)
  known j hj := by
    have hjk : j ≠ k := by
      rintro rfl
      grind
    rw [log j hjk]
    exact h.known j (by grind)

theorem stop (h : s.Tracked)
    (tasks : ∀ k : Nat, s'.tasks[k]? = s.tasks[k]? ∨ s'.tasks[k]? = s.tasks[k]?.map Task.stop)
    (log : s'.log = s.log) : s'.Tracked where
  tracks j b hb := by
    rw [attempts_congr log]
    rcases tasks j with hj | hj
    · exact h.tracks j b (hj ▸ hb)
    · rw [hj] at hb
      obtain ⟨t, ht, rfl⟩ := Option.map_eq_some_iff.mp hb
      exact (h.tracks j t ht).stop
  known j hj := by
    rw [attempts_congr log]
    refine h.known j ?_
    rcases tasks j with ht | ht
    · exact ht ▸ hj
    · simpa [ht] using hj

variable [DecidableEq D]

theorem pop (h : s.Tracked) (d : D) : (s.pop d).Tracked := by
  refine h.stop (fun k => ?_) pop_log
  rw [pop_tasks]
  split
  · exact .inr rfl
  · exact .inl rfl

theorem start (h : s.Tracked) (d : D) (q : Sequence P) : (s.start d q).Tracked where
  tracks j b hb := by
    rw [attempts_congr start_log]
    by_cases hj : j = s.tasks.length
    · subst hj
      rw [h.known _ (by simp)]
      obtain rfl : ({ device := d, sequence := q } : Task D P) = b := by
        simpa [start_tasks] using hb
      exact .new d q
    · have := (h.pop d).tracks j b (by simpa [start_tasks, hj] using hb)
      rwa [attempts_congr pop_log] at this
  known j hj := by
    rw [attempts_congr start_log]
    refine h.known j ?_
    rw [start_tasks] at hj
    split at hj
    · cases hj
    · rw [pop_tasks] at hj
      split at hj <;> simpa using hj

theorem startItem (h : s.Tracked) (x : Item D P) : (s.startItem x).Tracked := by
  unfold Sequencer.startItem
  split
  · exact h
  · exact h.start _ _

variable [DecidableEq U]

theorem step (h : s.Tracked) (reg : s.Registered) (hs : Step unit s l s') : s'.Tracked := by
  cases hs with
  | start d q => exact h.start d q
  | cancel d => exact h.pop d
  | @wakeUp k t w task live phase =>
    have track := h.tracks k t task
    exact h.own task rfl (fun _ _ => rfl) (track.go (track.next w (.inl phase)) (.inr (.inl rfl)))
  | @begins k t w task live phase free current =>
    have track := h.tracks k t task
    exact h.own task rfl (fun _ _ => rfl)
      (track.go (track.next w (.inr (.inl phase))) (.inr (.inr rfl)))
  | @skips k t w task live phase free gone =>
    have track := h.tracks k t task
    refine h.own task rfl (fun _ _ => rfl) (track.skip w ?_)
    have unfinished := track.not_finished (track.next w (.inr (.inl phase)))
    by_contra hr
    have := (reg.registered k t task).mpr ⟨by simpa using hr, unfinished, by simp [phase]⟩
    simp [current, this] at gone
  | @ends k t w task phase o =>
    have log : ∀ j, ((s.record ⟨.task k w, t.device, o⟩).advance k (t.afterSet w o)).attempts j =
        if j = k then s.attempts j ++ [(w, o)] else s.attempts j :=
      attempts_task (d := t.device) (by simp)
    refine h.own task advance_tasks (fun j hj => by rw [log, if_neg hj]) ?_
    rw [log, if_pos rfl]
    exact (h.tracks k t task).afterSet phase o
  | @reads k t w r task live phase =>
    refine h.own task advance_tasks (fun j _ => attempts_advance j) ?_
    rw [attempts_advance, attempts_setLock]
    refine (h.tracks k t task).afterRead phase ?_
    rw [current_iff, reg.registered k t task]
    simp [phase]
  | @stopped k t task cancelled phase =>
    refine h.own task advance_tasks (fun j _ => attempts_advance j) ?_
    rw [attempts_advance]
    exact (h.tracks k t task).stopped fun hr => by simp [reg.cancelled k t task cancelled] at hr
  | @stoppedRead k t w r task cancelled phase =>
    refine h.own task advance_tasks (fun j _ => attempts_advance j) ?_
    rw [attempts_advance, attempts_setLock]
    exact (h.tracks k t task).stopped fun hr => by simp [reg.cancelled k t task cancelled] at hr
  | @isSet j c i x call phase item =>
    have logged : ((s.record ⟨x.writer j i, x.device, .success⟩).setCall j
        { c with phase := .reached (i + 1) }).Tracked :=
      h.congr rfl (attempts_other rfl x.writer_ne_task)
    exact logged.startItem x
  | @raises j c i x call phase item e =>
    exact h.congr rfl (attempts_other rfl x.writer_ne_task)
  | finalEnds => exact h.congr rfl (attempts_other rfl (by simp))
  | finishAll => exact h.stop finishAll_stops rfl
  | _ => exact h.congr rfl fun _ => rfl

end Tracked

/-! ## The writes and the registration of a sequence -/

/-- The invariants of the sequencer. -/
structure Inv (unit : D → U) (s : Sequencer D U P) : Prop where
  registered : s.Registered
  locked : Locked unit s
  grouped : Grouped unit s
  tracked : s.Tracked

theorem inv_init : (init : Sequencer D U P).Inv unit where
  registered := ⟨by simp [init], by simp [init], by simp [init]⟩
  locked := by
    refine ⟨fun u h => ?_, .inl fun d => rfl⟩
    cases h <;> simp [init, Holds, FinalPhase.holds]
  grouped := by simp [init, Grouped]
  tracked := ⟨by simp [init], by simp [init, attempts]⟩

/-- A sequence is unregistered only when it was removed, its last work was written or it was
refused. -/
theorem unregistered_cases (inv : s.Inv unit) (task : s.tasks[k]? = some t)
    (out : s.running t.device ≠ some k) :
    t.removed = true ∨ t.step = t.sequence.steps.length ∨
      (∃ i, .final i ∈ successes (s.attempts k)) ∨ t.sequence.Refused (s.attempts k) := by
  have track := inv.tracked.tracks k t task
  obtain ⟨n, trace⟩ := track.trace
  have finished := track.finished.trans trace.last_written_iff
  rw [← track.step] at finished
  by_contra none
  simp only [not_or] at none
  obtain ⟨kept, open₁, open₂, notRefused⟩ := none
  have unfinished : ¬ t.finished = true := fun h => (finished.mp h).elim open₁ open₂
  have kept : t.removed = false := by simpa using kept
  have unfinished : t.finished = false := by simpa using unfinished
  refine out ((inv.registered.registered k t task).mpr ⟨kept, unfinished, fun he => ?_⟩)
  exact notRefused (track.ended he kept unfinished)

variable [DecidableEq D] [DecidableEq U]

theorem Inv.step (h : s.Inv unit) (hs : Step unit s l s') : s'.Inv unit :=
  ⟨h.registered.step hs, h.locked.step hs, h.grouped.step hs, h.tracked.step h.registered hs⟩

theorem Reachable.inv (h : s.Reachable unit) : s.Inv unit :=
  Transition.Reachable.invariant (fun _ e => by subst e; exact inv_init)
    (fun _ _ _ h hs => h.step hs) h

/-- The writes of the task of a sequence and its registration, in any reachable state: the
successful writes are its first `step` steps in their order and at most one final state after
them, each write follows the one before it, a write begins only while the sequence is registered,
and the sequence is registered until its last step or its final state is written, both are
refused, or it is removed. -/
theorem sequence_progress (reach : s.Reachable unit) (task : s.tasks[k]? = some t) :
    (t.step ≤ t.sequence.steps.length ∧
      (successes (s.attempts k) = (List.range t.step).map .step ∨
        successes (s.attempts k) = (List.range t.step).map .step ++ [.final t.step])) ∧
    ((∀ a ∈ (s.attempts k).head?, a.1 = .step 0) ∧ (s.attempts k).IsChain t.sequence.Follows) ∧
    (∀ w d s', Step unit s (.begins (.task k w) d) s' →
      d = t.device ∧ s.running t.device = some k) ∧
    (s.running t.device = some k → t.removed = false ∧ t.step ≠ t.sequence.steps.length ∧
      (∀ i, .final i ∉ successes (s.attempts k)) ∧
      (t.sequence.Refused (s.attempts k) → ∃ w e, t.phase = .reading w (.failed e))) ∧
    (s.running t.device ≠ some k → t.removed = true ∨ t.step = t.sequence.steps.length ∨
      (∃ i, .final i ∈ successes (s.attempts k)) ∨ t.sequence.Refused (s.attempts k)) ∧
    (∀ l s' a, Step unit s l s' → s'.tasks[k]? = some a → t.removed = false → a.removed = true →
      l.removes t.device) := by
  have inv := reach.inv
  have track := inv.tracked.tracks k t task
  obtain ⟨n, trace⟩ := track.trace
  have registered := inv.registered.registered k t task
  have finished := track.finished.trans trace.last_written_iff
  rw [← track.step] at finished
  refine ⟨?_, ⟨trace.head, trace.isChain⟩, ?_, ?_, ?_, ?_⟩
  · rw [track.step]
    exact ⟨trace.successes.1, trace.successes.2.2⟩
  · intro w d s' hs
    obtain ⟨t₁, ht₁, rfl, -, running, -⟩ := current_of_begins hs
    obtain rfl : t₁ = t := by simpa [task] using ht₁.symm
    exact ⟨rfl, running⟩
  · intro running
    obtain ⟨kept, unfinished, live⟩ := registered.mp running
    have open' : ¬ (t.step = t.sequence.steps.length ∨ ∃ i, .final i ∈ successes (s.attempts k)) :=
      fun written => by simp [finished.mpr written] at unfinished
    refine ⟨kept, fun h => open' (.inl h), fun i h => open' (.inr ⟨i, h⟩), ?_⟩
    exact fun refused => track.refused_reading refused kept live
  · exact unregistered_cases inv task
  · intro l s' a hs ha kept removed
    obtain ⟨a', ha', later⟩ := later_step inv.registered hs task
    obtain rfl : a' = a := by simpa [ha] using ha'.symm
    exact (later.removes removed).resolve_left (by simp [kept])

/-- The task of a pulse of device 0 in a phase. -/
def pulseTask (phase : Phase) : Task Nat Nat := { device := 0, sequence := .pulse 0, phase := phase }

/-- The pulse writes its end. -/
def pulseWriting : Sequencer Nat Nat Nat :=
  let s := (init.start 0 (.pulse 0)).setTask 0 (pulseTask (.waiting (.step 0)))
  (s.setLock 0 (some (.task 0))).setTask 0 (pulseTask (.writing (.step 0)))

/-- The end of the pulse was written. -/
def pulseWritten : Sequencer Nat Nat Nat :=
  (pulseWriting.record ⟨.task 0 (.step 0), 0, .success⟩).advance 0
    ((pulseTask (.writing (.step 0))).afterSet (.step 0) .success)

theorem reachable_pulseWriting : pulseWriting.Reachable id := by
  have started : Step id init (.start 0) (init.start 0 (.pulse 0)) := .start 0 _
  have woken : Step id (init.start 0 (.pulse 0)) (.task 0)
      ((init.start 0 (.pulse 0)).setTask 0 (pulseTask (.waiting (.step 0)))) :=
    .wakeUp (t := pulseTask (.sleeping (.step 0))) rfl rfl rfl
  have begun : Step id ((init.start 0 (.pulse 0)).setTask 0 (pulseTask (.waiting (.step 0))))
      (.begins (.task 0 (.step 0)) 0) pulseWriting :=
    .begins (t := pulseTask (.waiting (.step 0))) rfl rfl rfl rfl rfl
  exact .trans (.of_init rfl) (.cons started (.cons woken (.single begun)))

theorem reachable_pulseWritten : pulseWritten.Reachable id :=
  reachable_pulseWriting.next (.ends (t := pulseTask (.writing (.step 0))) rfl rfl .success)

/-- The pulse is done, so it is no longer registered. -/
theorem sequence_progress_pulse :
    pulseWritten.running 0 ≠ some 0 ∧ successes (pulseWritten.attempts 0) = [.step 0] := by
  have progress := sequence_progress (k := 0) reachable_pulseWritten rfl
  refine ⟨fun running => (progress.2.2.2.1 running).2.1 rfl, ?_⟩
  rcases progress.1.2 with written | written
  · exact written
  · exact absurd written (by decide)

end Sequencer

end Evok
