import Evok.Sequencer.Replace

/-!
# The shutdown

`finish_all()` takes every sequence out of `_running`, awaits the tasks which write and then writes
the final states of the sequences which did not end by their last write. If nothing else changes
their devices, each device is left in a final state or in the last step of its sequence.

## Main definitions

* `Sequencer.LastBy` : the last successful `device.set()` of a device finished a sequence.
* `Sequencer.Closing` : the invariant of a device from the call of `finish_all()`.

## Main results

* `Sequencer.shutdown_finishes` : the state of the devices when `finish_all()` returns.
-/


namespace Evok

namespace Sequencer

variable {D U P : Type*} [DecidableEq D] [DecidableEq U] [DecidableEq P] {unit : D → U}
  {s s₁ s₂ s' : Sequencer D U P} {d : D} {j k i : Nat} {t a : Task D P} {c : Call D U P}
  {x : Item D P} {l : Event D} {ls : List (Event D)} {y : Writer} {o : Outcome} {q : Sequence P}

/-! ## Who sets a device -/

/-- The task of a sequence sets the device. -/
def TaskSets (s : Sequencer D U P) (d : D) : Prop :=
  ∃ (k : Nat) (t : Task D P) (w : Work), s.tasks[k]? = some t ∧ t.device = d ∧ t.phase = .writing w

/-- A change sets the device. -/
def CallSets (s : Sequencer D U P) (d : D) : Prop :=
  ∃ (j : Nat) (c : Call D U P) (i : Nat) (x : Item D P),
    s.calls[j]? = some c ∧ c.phase = .setting i ∧ c.items[i]? = some x ∧ x.device = d

/-- A change of the device begins. -/
def Event.changes (l : Event D) (d : D) : Prop :=
  ∃ j i, l = .begins (.call j i) d ∨ l = .begins (.pulse j i) d

/-- Without a registered sequence no task begins to set the device. -/
theorem taskSets_of_step (h : s.Registered) (hs : Step unit s l s') (out : s.running d = none)
    (sets : s'.TaskSets d) : s.TaskSets d := by
  obtain ⟨k, a, w, ha, hd, writing⟩ := sets
  rcases earlier_step h hs ha with ⟨t, task, later⟩ | ⟨new, -⟩
  · rcases later.writing w writing with before | rfl
    · exact ⟨k, t, w, task, later.device ▸ hd, before⟩
    · obtain ⟨t', -, -, -, running, -⟩ := current_of_begins hs
      rw [← later.device, hd, out] at running
      cases running
  · simp [new] at writing

omit [DecidableEq D] [DecidableEq U] [DecidableEq P] in
theorem callSets_set {p : CallPhase} (call : s.calls[j]? = some c)
    (calls : s'.calls = s.calls.set j { c with phase := p }) (sets : s'.CallSets d) :
    s.CallSets d ∨ ∃ i x, p = .setting i ∧ c.items[i]? = some x ∧ x.device = d := by
  obtain ⟨j', c', i, x, call', phase, item, hd⟩ := sets
  rw [calls] at call'
  by_cases hj : j' = j
  · subst hj
    obtain rfl : ({ c with phase := p } : Call D U P) = c' := by grind
    exact .inr ⟨i, x, phase, item, hd⟩
  · exact .inl ⟨j', c', i, x, by grind, phase, item, hd⟩

/-- A change sets the device only after it began to. -/
theorem callSets_of_step (hs : Step unit s l s') (sets : s'.CallSets d) :
    s.CallSets d ∨ l.changes d := by
  have keep : ∀ {j : Nat} {c : Call D U P} {p : CallPhase}, s.calls[j]? = some c →
      s'.calls = s.calls.set j { c with phase := p } → (∀ i, p ≠ .setting i) → s.CallSets d := by
    intro j c p call calls hp
    refine (callSets_set call calls sets).resolve_right ?_
    rintro ⟨i, x, rfl, -⟩
    exact hp i rfl
  have same : s'.calls = s.calls → s.CallSets d := fun e => by rw [CallSets, e] at sets; exact sets
  cases hs with
  | @sets j c i x call phase item accepted =>
    rcases callSets_set call rfl sets with before | ⟨i', x', hp, item', hd⟩
    · exact .inl before
    · obtain rfl : i = i' := by simpa using hp
      obtain rfl : x = x' := by simpa [item] using item'
      refine .inr ⟨j, i, ?_⟩
      unfold Item.writer
      split
      · exact .inr (by rw [hd])
      · exact .inl (by rw [hd])
  | locks call => exact .inl (keep call rfl (by simp))
  | available call => exact .inl (keep call rfl (by simp))
  | refused call => exact .inl (keep call rfl (by simp))
  | done call => exact .inl (keep call rfl (by simp))
  | isSet call => exact .inl (keep call startItem_calls (by simp))
  | raises call => exact .inl (keep call rfl (by simp))
  | leaves call => exact .inl (keep call rfl (by simp))
  | releases call => exact .inl (keep call rfl (by simp))
  | request u items =>
    obtain ⟨j, c, i, x, call, phase, item, hd⟩ := sets
    by_cases hj : j = s.calls.length
    · obtain rfl : (⟨u, items, .waiting⟩ : Call D U P) = c := by grind
      cases phase
    · exact .inl ⟨j, c, i, x, by grind, phase, item, hd⟩
  | start => exact .inl (same start_calls)
  | cancel => exact .inl (same pop_calls)
  | ends => exact .inl (same advance_calls)
  | reads => exact .inl (same advance_calls)
  | stopped => exact .inl (same advance_calls)
  | stoppedRead => exact .inl (same advance_calls)
  | _ => exact .inl (same rfl)

/-- An ended `device.set()` was one of a task, of a change or of a final state. -/
theorem log_of_step (hs : Step unit s l s') :
    (s'.log = s.log ∧ ∀ y d o, l ≠ .ends y d o) ∨
    ∃ y d o, l = .ends y d o ∧ s'.log = s.log ++ [⟨y, d, o⟩] ∧
      (s.TaskSets d ∨ s.CallSets d ∨ ∃ k, y = .final k ∧ s.finals d = .writing k) := by
  cases hs with
  | @ends k t w task phase o =>
    exact .inr ⟨_, _, o, rfl, by simp, .inl ⟨k, t, w, task, rfl, phase⟩⟩
  | @isSet j c i x call phase item =>
    exact .inr ⟨_, _, _, rfl, by simp, .inr (.inl ⟨j, c, i, x, call, phase, item, rfl⟩)⟩
  | @raises j c i x call phase item e =>
    exact .inr ⟨_, _, _, rfl, by simp, .inr (.inl ⟨j, c, i, x, call, phase, item, rfl⟩)⟩
  | @finalEnds d k phase o => exact .inr ⟨_, _, o, rfl, rfl, .inr (.inr ⟨k, rfl, phase⟩)⟩
  | _ => exact .inl ⟨by simp [cancel, finishAll, startFinals], by simp⟩

/-- The task of a sequence reads its device after it set it. -/
theorem reading_of_ends {w : Work} (hs : Step unit s (.ends (.task k w) d o) s') :
    ∃ a r, s'.tasks[k]? = some a ∧ a.device = d ∧ a.phase = .reading w r := by
  generalize hl : Event.ends (.task k w) d o = l at hs
  cases hs with
  | @ends k' t w' task phase o' =>
    cases hl
    have bound : k < s.tasks.length := (List.getElem?_eq_some_iff.mp task).1
    refine ⟨t.afterSet w o, ?_⟩
    cases o with
    | success => exact ⟨.applied, by simp [bound], rfl, rfl⟩
    | failed e => exact ⟨.failed e, by simp [bound], rfl, rfl⟩
  | @isSet j c i x => exact absurd (Event.ends.inj hl).1.symm (x.writer_ne_task k w)
  | @raises j c i x => exact absurd (Event.ends.inj hl).1.symm (x.writer_ne_task k w)
  | _ => cases hl

/-! ## The last write of a device -/

/-- Who set the device successfully for the last time. -/
def lastWrite (s : Sequencer D U P) (d : D) : Option Writer :=
  ((s.log.filter fun x => x.device = d && x.outcome = .success).getLast?).map (·.writer)

/-- The device is in the final state or the last step of the sequence `q` of the task `k`. -/
def LastBy (k : Nat) (q : Sequence P) (d : D) (s : Sequencer D U P) : Prop :=
  s.lastWrite d = some (.final k) ∨ ∃ w, q.last w = true ∧ s.lastWrite d = some (.task k w)

omit [DecidableEq U] [DecidableEq P] in
theorem lastWrite_congr (h : s'.log = s.log) : s'.lastWrite d = s.lastWrite d := by
  simp [lastWrite, h]

omit [DecidableEq U] [DecidableEq P] in
theorem lastWrite_other {e : D} (h : s'.log = s.log ++ [⟨y, e, o⟩]) (ne : e ≠ d) :
    s'.lastWrite d = s.lastWrite d := by
  simp [lastWrite, h, ne]

omit [DecidableEq U] [DecidableEq P] in
theorem lastWrite_success (h : s'.log = s.log ++ [⟨y, d, .success⟩]) :
    s'.lastWrite d = some y := by
  simp [lastWrite, h]

/-! ## The final states -/

/-- The final state of a device goes on, or `finish_all()` starts it. -/
theorem finals_of_step (hs : Step unit s l s') (d : D) :
    s'.finals d = s.finals d ∨
    (∃ k, s.finals d = .waiting k ∧ s'.finals d = .writing k) ∨
    (∃ k o, s.finals d = .writing k ∧ s'.finals d = .reading k ∧ l = .ends (.final k) d o) ∨
    (∃ k, s.finals d = .reading k ∧ s'.finals d = .ended k) ∨
    ∃ candidates writing, s.finish = .awaiting candidates writing ∧
      s' = s.startFinals candidates := by
  have update : ∀ {e : D} {f : FinalPhase}, s'.finals = Function.update s.finals e f →
      s'.finals d = s.finals d ∨ e = d ∧ s'.finals d = f := by
    intro e f h
    by_cases he : d = e
    · subst he
      exact .inr ⟨rfl, by simp [h]⟩
    · exact .inl (by simp [h, he])
  cases hs with
  | @finalBegins e k phase free =>
    rcases update rfl with same | ⟨rfl, after⟩
    · exact .inl same
    · exact .inr (.inl ⟨k, phase, after⟩)
  | @finalEnds e k phase o =>
    rcases update rfl with same | ⟨rfl, after⟩
    · exact .inl same
    · exact .inr (.inr (.inl ⟨k, o, phase, after, rfl⟩))
  | @finalReads e k phase =>
    rcases update rfl with same | ⟨rfl, after⟩
    · exact .inl same
    · exact .inr (.inr (.inr (.inl ⟨k, phase, after⟩)))
  | @finals candidates writing phase ended =>
    exact .inr (.inr (.inr (.inr ⟨candidates, writing, phase, rfl⟩)))
  | _ => exact .inl (by simp [cancel, finishAll])

/-- `finish_all()` goes on. -/
theorem finish_of_step (hs : Step unit s l s') :
    s'.finish = s.finish ∨ s.finish = .idle ∨
    (∃ candidates writing, s.finish = .awaiting candidates writing ∧ s' = s.startFinals candidates ∧
      ∀ k ∈ writing, ∃ t, s.tasks[k]? = some t ∧ t.phase = .ended) ∨
    (s.finish = .finals ∧ s'.finish = .returned ∧
      ∀ d, s.finals d = .none ∨ ∃ k, s.finals d = .ended k) := by
  cases hs with
  | finishAll idle => exact .inr (.inl idle)
  | @finals candidates writing phase ended =>
    exact .inr (.inr (.inl ⟨candidates, writing, phase, rfl, ended⟩))
  | returns phase ended => exact .inr (.inr (.inr ⟨phase, rfl, ended⟩))
  | _ => exact .inl (by simp [cancel])

/-- A sequence of the device starts. -/
def Event.starts (l : Event D) (d : D) : Prop := l = .start d ∨ ∃ j i, l = .ends (.pulse j i) d .success

theorem running_of_step (hs : Step unit s l s') (starts : ¬ l.starts d)
    (out : s.running d = none) : s'.running d = none := by
  cases hs with
  | start e q =>
    have ne : d ≠ e := fun h => starts (.inl (by rw [h]))
    simp [ne, out]
  | @isSet j c i x call phase item =>
    unfold startItem
    split
    · exact out
    · next q hq =>
      have ne : d ≠ x.device := by
        rintro rfl
        exact starts (.inr ⟨j, i, by simp [Item.writer, hq]⟩)
      simp [ne, out]
  | cancel e => simp [cancel, out]
  | ends => simp [out]
  | reads => simp [out]
  | stopped => simp [out]
  | stoppedRead => simp [out]
  | finishAll => rfl
  | _ => exact out

/-! ## The invariant of a device -/

/-- The last work of the sequence of the task was written. -/
def Finished (s : Sequencer D U P) (k : Nat) : Prop := ∃ t, s.tasks[k]? = some t ∧ t.finished = true

/-- The device has its last state: a final write ended, or the sequence finished. -/
def Settled (s : Sequencer D U P) (d : D) (k : Nat) : Prop :=
  s.Finished k ∨ s.finals d = .reading k ∨ s.finals d = .ended k

/-- Where `finish_all()` is with the device `d`, whose sequence `q` of the task `k` was running. -/
inductive Finishing (s : Sequencer D U P) (d : D) (k : Nat) : Prop
  | awaiting (candidates : D → Option Nat) (writing : List Nat)
      (phase : s.finish = .awaiting candidates writing) (candidate : candidates d = some k)
      (none : s.finals d = .none)
      (awaited : ∀ (j : Nat) (t : Task D P) (w : Work), s.tasks[j]? = some t → t.device = d →
        t.phase = .writing w → j ∈ writing)
  | finals (phase : s.finish = .finals ∨ s.finish = .returned) (idle : ¬ s.TaskSets d)
      (final : s.finals d = .none ∧ s.Finished k ∨ ¬ s.Finished k ∧
        (s.finals d = .waiting k ∨ s.finals d = .writing k ∨ s.finals d = .reading k ∨
          s.finals d = .ended k))
      (returned : s.finish = .returned → s.finals d = .none ∨ s.finals d = .ended k)

/-- The invariant of a device from the call of `finish_all()`. -/
structure Closing (d : D) (k : Nat) (q : Sequence P) (s : Sequencer D U P) : Prop where
  out : s.running d = none
  task : ∃ t, s.tasks[k]? = some t ∧ t.device = d ∧ t.sequence = q
  settled : s.Settled d k → ¬ s.TaskSets d ∧ ¬ s.CallSets d ∧ LastBy k q d s
  finishing : s.Finishing d k

/-- Nothing but the final states changes the device, and these do not fail. -/
def Event.Quiet (d : D) (l : Event D) : Prop :=
  ¬ l.starts d ∧ ¬ l.changes d ∧ ∀ k e, l ≠ .ends (.final k) d (.failed e)

omit [DecidableEq D] [DecidableEq U] in
/-- Only one sets or reads a device at a time. -/
theorem not_sets_of_holds (inv : s.Inv unit) {h : Holder D} (holds : Holds unit s (unit d) h) :
    (∀ (k : Nat) (t : Task D P) (w : Work), s.tasks[k]? = some t → t.device = d →
      t.phase = .writing w → h = .task k) ∧
    (s.CallSets d → ∃ j, h = .call j) := by
  have own := (inv.locked.held (unit d) h).mpr holds
  refine ⟨?_, ?_⟩
  · rintro k t w task rfl writing
    have other := (inv.locked.held (unit t.device) (.task k)).mpr
      ⟨t, task, rfl, by simp [writing, Phase.holds]⟩
    simpa [own] using other
  · rintro ⟨j, c, i, x, call, phase, item, rfl⟩
    have other := (inv.locked.held c.unit (.call j)).mpr
      ⟨c, call, rfl, by simp [phase, CallPhase.holds]⟩
    rw [← inv.grouped j c call x (List.mem_of_getElem? item), own] at other
    exact ⟨j, Option.some.inj other⟩

namespace Closing

omit [DecidableEq U] [DecidableEq P] in
theorem unsettled_final (h : Closing d k q s) (settled : s.Settled d k) (j : Nat) :
    s.finals d ≠ .writing j := by
  intro writing
  rcases settled with finished | reading | ended
  · cases h.finishing with
    | awaiting c w phase candidate none => simp [none] at writing
    | finals phase idle final =>
      rcases final with ⟨none, -⟩ | ⟨unfinished, -⟩
      · simp [none] at writing
      · exact unfinished finished
  · simp [reading] at writing
  · simp [ended] at writing

/-- A sequence finishes by the last write of its task. -/
theorem finishes (h : Closing d k q s) (reg : s.Registered) (hs : Step unit s l s')
    (finished : s'.Finished k) : s.Finished k ∨ ∃ w t, s.tasks[k]? = some t ∧ t.device = d ∧
      t.phase = .writing w ∧ q.last w = true ∧ l = .ends (.task k w) d .success := by
  obtain ⟨t, task, rfl, rfl⟩ := h.task
  obtain ⟨a, ha, hf⟩ := finished
  obtain ⟨b, hb, later⟩ := later_step reg hs task
  obtain rfl : b = a := by simpa [ha] using hb.symm
  rcases later.finishes hf with before | ⟨w, writing, last, hl⟩
  · exact .inl ⟨t, task, before⟩
  · exact .inr ⟨w, t, task, rfl, writing, last, hl⟩

theorem finished_mono (reg : s.Registered) (hs : Step unit s l s') (h : s.Finished k) :
    s'.Finished k := by
  obtain ⟨t, task, finished⟩ := h
  obtain ⟨a, ha, later⟩ := later_step reg hs task
  exact ⟨a, ha, later.finished finished⟩

/-- A task which writes the device wrote it before the step. -/
theorem writing_before (h : Closing d k q s) (reg : s.Registered) (hs : Step unit s l s') {w : Work}
    (task : s'.tasks[j]? = some t) (device : t.device = d) (writing : t.phase = .writing w) :
    ∃ t₀, s.tasks[j]? = some t₀ ∧ t₀.device = d ∧ t₀.phase = .writing w := by
  rcases earlier_step reg hs task with ⟨t₀, task₀, later⟩ | ⟨new, -⟩
  · rcases later.writing w writing with before | rfl
    · exact ⟨t₀, task₀, later.device ▸ device, before⟩
    · obtain ⟨t', -, -, -, running, -⟩ := current_of_begins hs
      rw [← later.device, device, h.out] at running
      cases running
  · simp [new] at writing

theorem finishing_step (h : Closing d k q s) (reg : s.Registered) (hs : Step unit s l s') :
    s'.Finishing d k := by
  have finals := finals_of_step hs d
  have unfinished : ¬ s.TaskSets d → ¬ s.Finished k → ¬ s'.Finished k := by
    intro idle before after
    rcases h.finishes reg hs after with now | ⟨w, t, task, hd, writing, -⟩
    · exact before now
    · exact idle ⟨k, t, w, task, hd, writing⟩
  cases h.finishing with
  | awaiting c W phase candidate none awaited =>
    rcases finish_of_step hs with same | idle | ⟨c', W', phase', rfl, ended⟩ | ⟨phase', -⟩
    · refine .awaiting c W (same.trans phase) candidate ?_ ?_
      · rcases finals with hf | ⟨j, hf, -⟩ | ⟨j, o, hf, -⟩ | ⟨j, hf, -⟩ | ⟨c', W', phase', rfl⟩
        · exact hf.trans none
        · simp [none] at hf
        · simp [none] at hf
        · simp [none] at hf
        · simp [startFinals, phase] at same
      · intro j t w task hd writing
        obtain ⟨t₀, task₀, hd₀, writing₀⟩ := h.writing_before reg hs task hd writing
        exact awaited j t₀ w task₀ hd₀ writing₀
    · simp [phase] at idle
    · obtain ⟨rfl, rfl⟩ : c = c' ∧ W = W' := by simpa [phase] using phase'
      have idle : ¬ s.TaskSets d := by
        rintro ⟨j, t, w, task, hd, writing⟩
        obtain ⟨t', task', settled⟩ := ended j (awaited j t w task hd writing)
        obtain rfl : t' = t := by simpa [task] using task'.symm
        simp [writing] at settled
      refine .finals (.inl rfl) idle ?_ (by simp [startFinals])
      obtain ⟨t, task, -⟩ := h.task
      cases hf : t.finished with
      | true =>
        refine .inl ⟨?_, t, task, hf⟩
        simp [startFinals, candidate, Option.filter_some, task, hf]
      | false =>
        refine .inr ⟨?_, .inl ?_⟩
        · rintro ⟨t', task', hf'⟩
          obtain rfl : t = t' := Option.some.inj (task.symm.trans task')
          simp [hf] at hf'
        · simp [startFinals, candidate, Option.filter_some, task, hf]
    · simp [phase] at phase'
  | finals phase idle final returned =>
    have idle' : ¬ s'.TaskSets d := fun sets => idle (taskSets_of_step reg hs h.out sets)
    refine .finals ?_ idle' ?_ ?_
    · rcases finish_of_step hs with same | idle | ⟨c, W, phase', -⟩ | ⟨-, after, -⟩
      · rwa [same]
      · simp [idle] at phase
      · simp [phase'] at phase
      · exact .inr after
    · rcases final with ⟨none, finished⟩ | ⟨open', final⟩
      · refine .inl ⟨?_, finished_mono reg hs finished⟩
        rcases finals with hf | ⟨j, hf, -⟩ | ⟨j, o, hf, -⟩ | ⟨j, hf, -⟩ | ⟨c, W, phase', -⟩
        · exact hf.trans none
        · simp [none] at hf
        · simp [none] at hf
        · simp [none] at hf
        · simp [phase'] at phase
      · refine .inr ⟨unfinished idle open', ?_⟩
        rcases finals with hf | ⟨j, hf, hf'⟩ | ⟨j, o, hf, hf', -⟩ | ⟨j, hf, hf'⟩ | ⟨c, W, phase', -⟩
        · rwa [hf]
        · obtain rfl : j = k := by simpa [hf] using final
          exact .inr (.inl hf')
        · obtain rfl : j = k := by simpa [hf] using final
          exact .inr (.inr (.inl hf'))
        · obtain rfl : j = k := by simpa [hf] using final
          exact .inr (.inr (.inr hf'))
        · simp [phase'] at phase
    · intro after
      have settled : s.finals d = .none ∨ s.finals d = .ended k := by
        rcases finish_of_step hs with same | idle | ⟨c, W, phase', -⟩ | ⟨-, -, all⟩
        · exact returned (same.symm.trans after)
        · simp [idle] at phase
        · simp [phase'] at phase
        · rcases all d with none | ⟨j, ended⟩
          · exact .inl none
          · obtain ⟨-, rfl⟩ : ¬ s.Finished k ∧ j = k := by simpa [ended] using final
            exact .inr ended
      rcases finals with hf | ⟨j, hf, -⟩ | ⟨j, o, hf, -⟩ | ⟨j, hf, -⟩ | ⟨c, W, phase', -⟩
      · rwa [hf]
      · simp [hf] at settled
      · simp [hf] at settled
      · simp [hf] at settled
      · simp [phase'] at phase

/-- What was settled before the step stays as it is. -/
theorem settled_stays (h : Closing d k q s) (inv : s.Inv unit) (hs : Step unit s l s')
    (quiet : l.Quiet d) (settled : s.Settled d k) :
    ¬ s'.TaskSets d ∧ ¬ s'.CallSets d ∧ LastBy k q d s' := by
  obtain ⟨noTask, noCall, last⟩ := h.settled settled
  refine ⟨fun sets => noTask (taskSets_of_step inv.registered hs h.out sets), fun sets => ?_, ?_⟩
  · exact (callSets_of_step hs sets).elim noCall quiet.2.1
  · have same : s'.lastWrite d = s.lastWrite d := by
      rcases log_of_step hs with ⟨log, -⟩ | ⟨y, e, o, -, log, sets⟩
      · exact lastWrite_congr log
      · refine lastWrite_other log ?_
        rintro rfl
        rcases sets with sets | sets | ⟨j, -, writing⟩
        · exact noTask sets
        · exact noCall sets
        · exact h.unsettled_final settled j writing
    simpa only [LastBy, same] using last

/-- What settles the device is its last write, by the task or by `finish_all()`. -/
theorem settles (h : Closing d k q s) (inv : s.Inv unit) (hs : Step unit s l s')
    (quiet : l.Quiet d) (before : ¬ s.Settled d k) (settled : s'.Settled d k) :
    ¬ s'.TaskSets d ∧ ¬ s'.CallSets d ∧ LastBy k q d s' := by
  have reg := inv.registered
  simp only [Settled, not_or] at before
  have written : ∀ {y : Writer}, l = .ends y d .success → s'.lastWrite d = some y := by
    rintro y rfl
    rcases log_of_step hs with ⟨-, none⟩ | ⟨y', e, o, hl, log, -⟩
    · exact absurd rfl (none y d .success)
    · cases hl
      exact lastWrite_success log
  by_cases finished : s'.Finished k
  · obtain ⟨w, t, task, hd, writing, last, rfl⟩ :=
      (h.finishes reg hs finished).resolve_left before.1
    obtain ⟨a, r, ha, rfl, reading⟩ := reading_of_ends hs
    have alone := not_sets_of_holds (inv.step hs) (h := .task k)
      ⟨a, ha, rfl, by simp [reading, Phase.holds]⟩
    refine ⟨?_, fun sets => by simpa using alone.2 sets, .inr ⟨w, last, written rfl⟩⟩
    rintro ⟨j, b, v, hb, hd, writing⟩
    obtain rfl : k = j := by simpa using alone.1 j b v hb hd writing
    obtain rfl : a = b := Option.some.inj (ha.symm.trans hb)
    simp [reading] at writing
  · have after : s'.finals d = .reading k ∨ s'.finals d = .ended k := settled.resolve_left finished
    rcases finals_of_step hs d with hf | ⟨j, -, hf⟩ | ⟨j, o, -, hf, hl⟩ | ⟨j, hf, hf'⟩ |
      ⟨c, W, -, rfl⟩
    · rw [hf] at after
      exact absurd after (by simp [before.2])
    · simp [hf] at after
    · obtain rfl : j = k := by simpa [hf] using after
      have success : o = .success := by
        cases o with
        | success => rfl
        | failed e => exact absurd hl (quiet.2.2 j e)
      have alone := not_sets_of_holds (d := d) (inv.step hs) (h := .final d)
        ⟨rfl, by simp [hf, FinalPhase.holds]⟩
      refine ⟨?_, fun sets => by simpa using alone.2 sets, .inl (written (success ▸ hl))⟩
      rintro ⟨i, b, v, hb, hd, writing⟩
      simpa using alone.1 i b v hb hd writing
    · obtain rfl : j = k := by simpa [hf'] using after
      exact absurd hf before.2.1
    · simp only [startFinals] at after
      split at after <;> simp at after

/-- What is settled stays so, and what settles the device is its last write. -/
theorem settled_step (h : Closing d k q s) (inv : s.Inv unit) (hs : Step unit s l s')
    (quiet : l.Quiet d) (settled : s'.Settled d k) :
    ¬ s'.TaskSets d ∧ ¬ s'.CallSets d ∧ LastBy k q d s' := by
  by_cases before : s.Settled d k
  · exact h.settled_stays inv hs quiet before
  · exact h.settles inv hs quiet before settled

theorem step (h : Closing d k q s) (inv : s.Inv unit) (hs : Step unit s l s')
    (quiet : l.Quiet d) : Closing d k q s' := by
  obtain ⟨t, task, hd, hq⟩ := h.task
  obtain ⟨a, ha, later⟩ := later_step inv.registered hs task
  exact ⟨running_of_step hs quiet.1 h.out, ⟨a, ha, later.device.trans hd, later.sequence.trans hq⟩,
    h.settled_step inv hs quiet, h.finishing_step inv.registered hs⟩

end Closing

/-! ## The end of `finish_all()` -/

omit [DecidableEq U] in
/-- The devices of the running sequences with a final state when `finish_all()` is called. -/
theorem closing_finishAll (inv : s.Inv unit) (idle : s.finish = .idle)
    (running : s.running d = some k) (task : s.tasks[k]? = some t)
    (final : t.sequence.final ≠ none) : Closing d k t.sequence s.finishAll := by
  obtain ⟨t', task', hd⟩ := inv.registered.entry d k running
  obtain rfl : t' = t := Option.some.inj (task'.symm.trans task)
  have live := (inv.registered.registered k t' task).mp (hd ▸ running)
  have none : ∀ d, s.finals d = .none :=
    inv.locked.early.resolve_right (by simp [idle])
  have stopped : s.finishAll.tasks[k]? = some t'.stop := by
    simp [finishAll_tasks, task, hd, running]
  refine ⟨rfl, ⟨t'.stop, stopped, by simpa using hd, by simp⟩, ?_, ?_⟩
  · rintro (⟨a, ha, finished⟩ | reading | ended)
    · obtain rfl : t'.stop = a := Option.some.inj (stopped.symm.trans ha)
      simp [live.2.1] at finished
    · simp [finishAll, none] at reading
    · simp [finishAll, none] at ended
  · refine .awaiting _ _ rfl ?_ (none d) ?_
    · simp [running, Option.filter_some, task, Option.isSome_iff_ne_none, final]
    · intro j a w ha _ writing
      simp only [finishAll_tasks, Option.map_eq_some_iff] at ha
      obtain ⟨b, hb, rfl⟩ := ha
      have bound : j < s.tasks.length := (List.getElem?_eq_some_iff.mp hb).1
      have before : b.phase = .writing w := by
        split at writing <;> simpa using writing
      refine List.mem_filter.mpr ⟨List.mem_range.mpr bound, ?_⟩
      simp only [hb, Option.any_some, before, Phase.isWriting]

/-- When `finish_all()` returns, the last successful `device.set()` of each device whose sequence
was running at the call was a final state or the last step of its sequence, if the final states were
written and nothing else changed the device after the call; no step of these sequences begins. -/
theorem shutdown_finishes (reach : s.Reachable unit) (hs : Step unit s .finishAll s₁)
    (run : Transition.Run (Step unit) s₁ ls s₂) (returned : s₂.finish = .returned)
    (quiet : ∀ d, s.running d ≠ none → ∀ m ∈ ls, m.Quiet d) :
    (∀ (d : D) (k : Nat) (t : Task D P), s.running d = some k → s.tasks[k]? = some t →
      t.sequence.final ≠ none → LastBy k t.sequence d s₂) ∧
    ∀ d k, s.running d = some k → ∀ ls' s₃, Transition.Run (Step unit) s₂ ls' s₃ →
      ∀ m ∈ ls', ∀ w e, m ≠ .begins (.task k w) e := by
  have inv := reach.inv
  refine ⟨fun d k t running task final => ?_, fun d k running ls' s₃ after => ?_⟩
  · cases hs with
    | finishAll idle =>
      have start : (s.finishAll).Inv unit ∧ Closing d k t.sequence s.finishAll :=
        ⟨inv.step (.finishAll idle), closing_finishAll inv idle running task final⟩
      obtain ⟨-, closing⟩ : s₂.Inv unit ∧ Closing d k t.sequence s₂ := by
        refine run.invariant_of_labels
          (I := fun s => s.Inv unit ∧ Closing d k t.sequence s) ?_
          (quiet d (by simp [running])) start
        rintro s l s' quiet ⟨inv, closing⟩ hs
        exact ⟨inv.step hs, closing.step inv hs quiet⟩
      refine (closing.settled ?_).2.2
      cases closing.finishing with
      | awaiting c W phase => simp [phase] at returned
      | finals phase idle final settled =>
        rcases settled returned with none | ended
        · simp only [none] at final
          exact .inl (final.elim (·.2) fun h => by simp at h)
        · exact .inr (.inr ended)
  · have begins := (removed_begins_nothing reach running hs (.inr (.inr (.inr rfl)))
      (run.append after)).2
    exact fun m hm => begins m (List.mem_append_right _ hm)

/-- The final state of a sleeping pulse is written on shutdown. -/
theorem shutdown_finishes_pulse : ∃ s₂ : Sequencer Nat Nat Nat,
    Transition.Run (Step id) (init.start 0 (.pulse 0)).finishAll [.finish, .begins (.final 0) 0,
      .ends (.final 0) 0 .success, .finish, .finish] s₂ ∧ LastBy 0 (.pulse 0) 0 s₂ := by
  let s : Sequencer Nat Nat Nat := init.start 0 (.pulse 0)
  let s₁ := s.finishAll
  let s₂ := s₁.startFinals fun d =>
    (s.running d).filter fun k => s.tasks[k]?.any (·.sequence.final.isSome)
  let s₃ := (s₂.setLock 0 (some (.final 0))).setFinal 0 (.writing 0)
  let s₄ := (s₃.record ⟨.final 0, 0, .success⟩).setFinal 0 (.reading 0)
  let s₅ := (s₄.setLock 0 none).setFinal 0 (.ended 0)
  have started : Step id init (.start 0) s := .start 0 _
  have called : Step id s .finishAll s₁ := .finishAll rfl
  have phase : s₁.finish = .awaiting (fun d =>
      (s.running d).filter fun k => s.tasks[k]?.any (·.sequence.final.isSome)) [] := rfl
  have awaited : Step id s₁ .finish s₂ := .finals phase (by simp)
  have begun : Step id s₂ (.begins (.final 0) 0) s₃ := .finalBegins rfl rfl
  have ended : Step id s₃ (.ends (.final 0) 0 .success) s₄ := .finalEnds rfl .success
  have read : Step id s₄ .finish s₅ := .finalReads rfl
  have settled : ∀ d, s₅.finals d = .none ∨ ∃ k, s₅.finals d = .ended k := by
    intro d
    by_cases hd : d = 0
    · exact .inr ⟨0, by simp [s₅, hd]⟩
    · refine .inl ?_
      simp [s₅, s₄, s₃, s₂, s, startFinals, hd, init]
  have returns : Step id s₅ .finish { s₅ with finish := .returned } := .returns rfl settled
  have run := Transition.Run.cons awaited (.cons begun (.cons ended (.cons read (.single returns))))
  have reach : s.Reachable id := Transition.Reachable.next (.of_init rfl) started
  refine ⟨_, run,
    (shutdown_finishes reach called run rfl ?_).1 0 0 _ rfl rfl (by simp [Sequence.pulse])⟩
  intro d _ m hm
  simp only [List.mem_cons, List.not_mem_nil, or_false] at hm
  rcases hm with rfl | rfl | rfl | rfl | rfl <;> simp [Event.Quiet, Event.starts, Event.changes]

end Sequencer

end Evok
