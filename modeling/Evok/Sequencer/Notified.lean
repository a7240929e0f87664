import Evok.Sequencer.Progress

/-!
# The clients see the progress of a sequence

`SequencerDevice.full()` tells the running sequence of an output and its done steps. The sequencer
calls its listeners when a sequence starts, does a step and ends, and the state is sent then. A step
is done before the read at the end of its change, its event is sent after the read.

## Main definitions

* `Sequencer.progress` : what `full()` tells of an output.
* `Sequencer.notifies` : the calls of `_notify`.
* `Watched` : a sequencer and the progress which was sent last.

## Main results

* `Watched.seen_progress` : the clients have seen the progress, except during that read.
-/


namespace Evok

variable {D U P : Type*}

namespace Sequencer

variable {unit : D → U} {s s' : Sequencer D U P} {d : D} {k : Nat} {t a : Task D P} {l : Event D}

/-- The running sequence of the device and the number of its done steps. -/
def progress (s : Sequencer D U P) (d : D) : Option (Sequence P × Nat) :=
  (s.running d).bind fun k => s.tasks[k]?.map fun t => (t.sequence, t.step)

/-- `_notify(device)` of the task which ends: by `_end`, if its sequence is still the running one. -/
def endNotifies [DecidableEq D] (s : Sequencer D U P) (k : Nat) (t : Task D P) (d : D) : Bool :=
  t.device = d && (t.finished || t.phase = .ended) && s.current d k

/-- The task goes on after the change of a step: `_run` notifies of a step which is not the last one. -/
def readNotifies [DecidableEq D] [DecidableEq P] (s : Sequencer D U P) (k : Nat) (t : Task D P)
    (w : Work) (r : Result) (d : D) : Bool :=
  let after := t.afterRead (s.current t.device k) w r
  s.endNotifies k after d || (t.device = d && r = .applied && after.phase ≠ .ended)

/-- The step of a task after its delay, at the lock or after a read. -/
def taskNotifies [DecidableEq D] [DecidableEq P] (s : Sequencer D U P) (k : Nat) (t : Task D P)
    (d : D) : Bool :=
  if t.cancelled then s.endNotifies k { t with phase := .ended } d
  else match t.phase with
    | .reading w r => s.readNotifies k t w r d
    | _ => false

/-- `_notify(device)` is called. -/
def notifies [DecidableEq D] [DecidableEq P] (s : Sequencer D U P) (l : Event D) (d : D) : Bool :=
  match l with
  | .start e => e = d
  | .cancel e => e = d && (s.running d).isSome
  | .ends (.task k w) _ o => s.tasks[k]?.any fun t => s.endNotifies k (t.afterSet w o) d
  | .ends (.pulse _ _) e .success => e = d
  | .task k => s.tasks[k]?.any fun t => s.taskNotifies k t d
  | .finishAll => (s.running d).isSome
  | _ => false

/-- The running sequence has done a step, the read of its change is not finished. -/
def Unsent (s : Sequencer D U P) (d : D) : Prop :=
  ∃ k t w, s.running d = some k ∧ s.tasks[k]? = some t ∧ t.phase = .reading w .applied

/-! ## What a step keeps -/

/-- Nothing is to be sent of a device. -/
def Kept (s s' : Sequencer D U P) (d : D) : Prop :=
  s'.progress d = s.progress d ∧ (s.Unsent d → s'.Unsent d)

theorem kept_of_running (running : s'.running d = s.running d)
    (tasks : ∀ k, s.running d = some k → s'.tasks[k]? = s.tasks[k]?) : Kept s s' d := by
  constructor
  · unfold progress
    rw [running]
    cases hk : s.running d with
    | none => rfl
    | some k => simp only [Option.bind_some, tasks k hk]
  · rintro ⟨k, t, w, hk, ht, phase⟩
    exact ⟨k, t, w, running.trans hk, (tasks k hk).trans ht, phase⟩

/-- A task whose step is not written goes on. -/
theorem kept_of_task (ht : s.tasks[k]? = some t) (running : s'.running d = s.running d)
    (tasks : s'.tasks = s.tasks.set k a) (sequence : a.sequence = t.sequence)
    (step : a.step = t.step) (phase : ∀ w, t.phase ≠ .reading w .applied) : Kept s s' d := by
  by_cases hk : s.running d = some k
  · constructor
    · have hget : s'.tasks[k]? = some a := by
        rw [tasks, List.getElem?_set_self (List.getElem?_eq_some_iff.mp ht).1]
      simp [progress, running, hk, hget, ht, sequence, step]
    · rintro ⟨j, u, w, hj, hu, hphase⟩
      obtain rfl := Option.some.inj (hk.symm.trans hj)
      obtain rfl := Option.some.inj (ht.symm.trans hu)
      exact absurd hphase (phase w)
  · refine kept_of_running running fun j hj => ?_
    have hne : k ≠ j := fun heq => hk (heq ▸ hj)
    rw [tasks, List.getElem?_set_ne hne]

/-- The task of another device goes on. -/
theorem kept_of_other (reg : s.Registered) (ht : s.tasks[k]? = some t) (other : t.device ≠ d)
    (running : s'.running d = s.running d) (tasks : s'.tasks = s.tasks.set k a) : Kept s s' d := by
  refine kept_of_running running fun j hj => ?_
  have hne : k ≠ j := by
    rintro rfl
    obtain ⟨u, hu, hdevice⟩ := reg.entry d k hj
    obtain rfl := Option.some.inj (ht.symm.trans hu)
    exact other hdevice
  rw [tasks, List.getElem?_set_ne hne]

/-- The task of a sequence which is not the running one. -/
theorem kept_of_removed (running : s'.running d = s.running d) (removed : s.running d ≠ some k)
    (tasks : s'.tasks = s.tasks.set k a) : Kept s s' d := by
  refine kept_of_running running fun j hj => ?_
  have hne : k ≠ j := fun heq => removed (heq ▸ hj)
  rw [tasks, List.getElem?_set_ne hne]

variable [DecidableEq D]

/-- Another device. -/
theorem kept_of_pop (reg : s.Registered) {e : D} (other : e ≠ d) : Kept s (s.pop e) d := by
  refine kept_of_running (by simp [Ne.symm other]) fun k hk => ?_
  obtain ⟨t, ht, hdevice⟩ := reg.entry d k hk
  have hne : s.running e ≠ some k := by
    intro he
    obtain ⟨u, hu, hdevice'⟩ := reg.entry e k he
    obtain rfl := Option.some.inj (ht.symm.trans hu)
    exact other (hdevice'.symm.trans hdevice)
  simp [hne]

theorem kept_of_start (reg : s.Registered) {e : D} (other : e ≠ d) (q : Sequence P) :
    Kept s (s.start e q) d := by
  obtain ⟨hprogress, hunsent⟩ := kept_of_pop reg other
  have hstart : Kept (s.pop e) (s.start e q) d := by
    refine kept_of_running (by simp [Ne.symm other]) fun k hk => ?_
    obtain ⟨t, ht, -⟩ := (reg.pop e).entry d k hk
    have hlt : k < s.tasks.length := by simpa using (List.getElem?_eq_some_iff.mp ht).1
    rw [start_tasks, if_neg (Nat.ne_of_lt hlt)]
  exact ⟨hstart.1.trans hprogress, fun h => hstart.2 (hunsent h)⟩

theorem endNotifies_iff : s.endNotifies k t d = true ↔
    t.device = d ∧ (t.finished = true ∨ t.phase = .ended) ∧ s.running d = some k := by
  simp [endNotifies, current, and_assoc]

/-- A task which is not notified of stays in `_running`. -/
theorem advance_running_of_quiet (quiet : s.endNotifies k a d = false) :
    (s.advance k a).running d = s.running d := by
  have hnot := (Bool.eq_false_iff.mp quiet) ∘ endNotifies_iff.mpr
  rw [advance_running]
  refine if_neg fun h => hnot ?_
  simp only [Bool.and_eq_true, Bool.or_eq_true, decide_eq_true_eq] at h
  exact ⟨h.1.2.symm, h.1.1, h.2⟩

/-- After `device.set()` of a task. -/
theorem kept_of_ends (ht : s.tasks[k]? = some t) {w : Work}
    (phase : t.phase = .writing w) (o : Outcome)
    (quiet : s.endNotifies k (t.afterSet w o) d = false)
    (running : s'.running = (s.advance k (t.afterSet w o)).running)
    (tasks : s'.tasks = s.tasks.set k (t.afterSet w o)) : Kept s s' d ∨ s'.Unsent d := by
  have hrunning : s'.running d = s.running d := by
    rw [running, advance_running_of_quiet quiet]
  by_cases hk : s.running d = some k
  · cases o with
    | failed e => exact .inl (kept_of_task ht hrunning tasks rfl rfl (by simp [phase]))
    | success =>
      refine .inr ⟨k, t.afterSet w .success, w, hrunning.trans hk, ?_, rfl⟩
      rw [tasks, List.getElem?_set_self (List.getElem?_eq_some_iff.mp ht).1]
  · exact .inl (kept_of_removed hrunning hk tasks)

/-- A cancelled task ends. -/
theorem kept_of_stopped (quiet : s.endNotifies k { t with phase := .ended } d = false)
    (ht : s.tasks[k]? = some t) (reg : s.Registered)
    (running : s'.running = (s.advance k { t with phase := .ended }).running)
    (tasks : s'.tasks = s.tasks.set k { t with phase := .ended }) : Kept s s' d := by
  have hrunning : s'.running d = s.running d := by
    rw [running, advance_running_of_quiet quiet]
  refine kept_of_removed hrunning (fun hk => ?_) tasks
  obtain ⟨u, hu, hdevice⟩ := reg.entry d k hk
  obtain rfl := Option.some.inj (ht.symm.trans hu)
  have hends : s.endNotifies k { t with phase := .ended } d = true :=
    endNotifies_iff.mpr ⟨hdevice, .inr rfl, hk⟩
  exact absurd hends (Bool.eq_false_iff.mp quiet)

variable [DecidableEq P]

/-- After the change of a step. -/
theorem kept_of_reads (reg : s.Registered) (ht : s.tasks[k]? = some t) {w : Work} {r : Result}
    (phase : t.phase = .reading w r) (quiet : s.readNotifies k t w r d = false)
    (running : s'.running = (s.advance k (t.afterRead (s.current t.device k) w r)).running)
    (tasks : s'.tasks = s.tasks.set k (t.afterRead (s.current t.device k) w r)) : Kept s s' d := by
  obtain ⟨p, hp⟩ := t.afterRead_eq (s.current t.device k) w r
  simp only [readNotifies, hp, Bool.or_eq_false_iff] at quiet
  rw [hp] at running tasks
  have hrunning : s'.running d = s.running d := by
    rw [running, advance_running_of_quiet quiet.1]
  by_cases hk : s.running d = some k
  · obtain ⟨u, hu, hdevice⟩ := reg.entry d k hk
    obtain rfl := Option.some.inj (ht.symm.trans hu)
    refine kept_of_task ht hrunning tasks rfl rfl fun v hv => ?_
    obtain ⟨rfl, rfl⟩ := Phase.reading.inj (phase.symm.trans hv)
    have hgoes : p ≠ .ended := by
      intro hended
      have hends : s.endNotifies k { t with phase := p } d = true :=
        endNotifies_iff.mpr ⟨hdevice, .inr hended, hk⟩
      exact absurd hends (Bool.eq_false_iff.mp quiet.1)
    simp [hdevice, hgoes] at quiet
  · exact kept_of_removed hrunning hk tasks

variable [DecidableEq U]

/-- Without a notification of the device nothing is to be sent, or its step was just written. -/
theorem kept_of_step (reg : s.Registered) (hs : Step unit s l s') (quiet : s.notifies l d = false) :
    Kept s s' d ∨ s'.Unsent d := by
  cases hs with
  | start e q => exact .inl (kept_of_start reg (by simpa [notifies] using quiet) q)
  | cancel e =>
    by_cases heq : e = d
    · subst heq
      have hnone : s.running e = none := by simpa [notifies] using quiet
      exact .inl (kept_of_running (by simp [cancel, hnone]) (by simp [hnone]))
    · exact .inl (kept_of_pop reg heq)
  | wakeUp task live phase =>
    exact .inl (kept_of_task task rfl rfl rfl rfl (by simp [phase]))
  | begins task live phase =>
    exact .inl (kept_of_task task rfl rfl rfl rfl (by simp [phase]))
  | skips task live phase =>
    exact .inl (kept_of_task task rfl rfl rfl rfl (by simp [phase]))
  | @ends k t w task phase o =>
    have hquiet : s.endNotifies k (t.afterSet w o) d = false := by
      simpa [notifies, task] using quiet
    exact kept_of_ends task phase o hquiet (by funext e; simp) (by simp)
  | @reads k t w r task live phase =>
    have hquiet : s.readNotifies k t w r d = false := by
      simpa [notifies, taskNotifies, task, live, phase] using quiet
    exact .inl (kept_of_reads reg task phase hquiet (by funext e; simp) (by simp))
  | @stopped k t task cancelled phase =>
    have hquiet : s.endNotifies k { t with phase := .ended } d = false := by
      simpa [notifies, taskNotifies, task, cancelled] using quiet
    exact .inl (kept_of_stopped hquiet task reg rfl (by simp))
  | @stoppedRead k t w r task cancelled phase =>
    have hquiet : s.endNotifies k { t with phase := .ended } d = false := by
      simpa [notifies, taskNotifies, task, cancelled] using quiet
    exact .inl (kept_of_stopped hquiet task reg (by funext e; simp) (by simp))
  | @isSet j c i x call phase item =>
    cases hq : x.sequence with
    | none =>
      simp only [startItem, hq]
      exact .inl (kept_of_running rfl fun _ _ => rfl)
    | some q =>
      have hother : x.device ≠ d := by simpa [notifies, Item.writer, hq] using quiet
      simp only [startItem, hq]
      have hcalled : Sequencer.Registered ((s.record ⟨x.writer j i, x.device, .success⟩).setCall j
        { c with phase := .reached (i + 1) }) := reg.congr rfl rfl
      exact .inl (kept_of_start hcalled hother q)
  | finishAll =>
    have hnone : s.running d = none := by simpa [notifies] using quiet
    exact .inl (kept_of_running (by simp [Sequencer.finishAll, hnone]) (by simp [hnone]))
  | _ => exact .inl (kept_of_running rfl fun _ _ => rfl)

end Sequencer

/-! ## The progress which was sent -/

/-- A sequencer and the progress of each output which was sent last. -/
structure Watched (D U P : Type*) where
  sequencer : Sequencer D U P
  seen : D → Option (Sequence P × Nat)

namespace Watched

open Sequencer

variable [DecidableEq D] [DecidableEq U] [DecidableEq P] {unit : D → U} {x y : Watched D U P}
  {l : Event D}

/-- A notification sends the state after the step. -/
structure Step (unit : D → U) (x : Watched D U P) (l : Event D) (y : Watched D U P) : Prop where
  step : Sequencer.Step unit x.sequencer l y.sequencer
  seen : ∀ d, y.seen d =
    if x.sequencer.notifies l d then y.sequencer.progress d else x.seen d

/-- The sequencer before its first sequence. -/
def init : Watched D U P :=
  ⟨Sequencer.init, fun _ => none⟩

/-- The progress was sent, or it will be sent after the read. -/
structure Inv (unit : D → U) (x : Watched D U P) : Prop where
  inv : x.sequencer.Inv unit
  sent : ∀ d, x.seen d = x.sequencer.progress d ∨ x.sequencer.Unsent d

theorem Inv.step (h : x.Inv unit) (hs : Step unit x l y) : y.Inv unit := by
  refine ⟨h.inv.step hs.step, fun d => ?_⟩
  rw [hs.seen d]
  by_cases hnotifies : x.sequencer.notifies l d = true
  · exact .inl (if_pos hnotifies)
  · rw [if_neg hnotifies]
    rcases kept_of_step h.inv.registered hs.step (Bool.eq_false_iff.mpr hnotifies) with
      ⟨hprogress, hunsent⟩ | hunsent
    · rw [hprogress]
      exact (h.sent d).imp_right hunsent
    · exact .inr hunsent

/-- In every run the clients have seen the progress of every output, unless its running sequence
has just written a step and its change is not ended; and before a sequence writes a step, they have
seen that exactly the steps before it are done. -/
theorem seen_progress {events : List (Event D)} (run : Transition.Run (Step unit) init events x) :
    (∀ d, ¬ x.sequencer.Unsent d → x.seen d = x.sequencer.progress d) ∧
      ∀ k w d y, Step unit x (.begins (.task k w) d) y →
        ∃ t, x.sequencer.tasks[k]? = some t ∧ x.seen d = some (t.sequence, w.index) := by
  have start : (init : Watched D U P).Inv unit := ⟨inv_init, fun d => .inl rfl⟩
  have hinv : x.Inv unit := run.invariant (fun _ _ _ h hs => h.step hs) start
  have hseen : ∀ d, ¬ x.sequencer.Unsent d → x.seen d = x.sequencer.progress d :=
    fun d ended => (hinv.sent d).resolve_right ended
  refine ⟨hseen, fun k w d y hs => ?_⟩
  obtain ⟨t, ht, rfl, phase, running, -⟩ := current_of_begins hs.step
  refine ⟨t, ht, ?_⟩
  have ended : ¬ x.sequencer.Unsent t.device := by
    rintro ⟨j, u, v, hj, hu, hphase⟩
    obtain rfl := Option.some.inj (running.symm.trans hj)
    obtain rfl := Option.some.inj (ht.symm.trans hu)
    simp [phase] at hphase
  have track := hinv.inv.tracked.tracks k t ht
  have trace := track.next w (.inr (.inl phase))
  rw [hseen _ ended, (trace.successes.2.1 w rfl).2.1, ← track.step]
  simp [progress, running, ht]

/-- A pulse of device 0 waits for the lock of its unit. -/
def pulseWaiting : Watched Nat Nat Nat where
  sequencer := (Sequencer.init.start 0 (.pulse 0)).setTask 0 (pulseTask (.waiting (.step 0)))
  seen d := if d = 0 then some (.pulse 0, 0) else none

/-- The pulse is shown before it writes its end. -/
theorem seen_progress_pulse : pulseWaiting.seen 0 = pulseWaiting.sequencer.progress 0 := by
  let started : Watched Nat Nat Nat := ⟨Sequencer.init.start 0 (.pulse 0), pulseWaiting.seen⟩
  have first : Step id init (.start 0) started := by
    refine ⟨.start 0 _, fun d => ?_⟩
    by_cases h : d = 0
    · subst h
      rfl
    · simp [started, pulseWaiting, notifies, init, h, Ne.symm h]
  have second : Step id started (.task 0) pulseWaiting :=
    ⟨.wakeUp (t := pulseTask (.sleeping (.step 0))) rfl rfl rfl, fun d => rfl⟩
  refine (seen_progress (.cons first (.single second))).1 0 ?_
  rintro ⟨k, t, w, hk, ht, phase⟩
  obtain rfl : 0 = k := Option.some.inj hk
  obtain rfl : pulseTask (.waiting (.step 0)) = t := Option.some.inj ht
  simp [pulseTask] at phase

end Watched

end Evok
