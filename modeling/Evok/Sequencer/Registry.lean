import Evok.Sequencer.Sequencer

/-!
# The registered sequences

A sequence is in `_running` from its start until it is removed, its last write is done or its task
ends. Nothing else takes it out, and a number once taken out never comes back.

## Main results

* `Sequencer.Registered` : who is in `_running`, kept by every step.
* `Sequencer.later_step` : a task stays known, what ended its sequence is kept.
* `Sequencer.never_current` : a sequence which is not in `_running` stays out of it.
-/


namespace Evok

namespace Task

variable {D P : Type*} {t : Task D P} {w : Work} {o : Outcome}

@[simp] theorem stop_device : t.stop.device = t.device := by unfold stop; split <;> rfl
@[simp] theorem stop_sequence : t.stop.sequence = t.sequence := by unfold stop; split <;> rfl
@[simp] theorem stop_step : t.stop.step = t.step := by unfold stop; split <;> rfl
@[simp] theorem stop_finished : t.stop.finished = t.finished := by unfold stop; split <;> rfl
@[simp] theorem stop_phase : t.stop.phase = t.phase := by unfold stop; split <;> rfl
@[simp] theorem stop_removed : t.stop.removed = true := by unfold stop; split <;> rfl

@[simp] theorem afterSet_device : (t.afterSet w o).device = t.device := by cases o <;> rfl
@[simp] theorem afterSet_sequence : (t.afterSet w o).sequence = t.sequence := by cases o <;> rfl
@[simp] theorem afterSet_removed : (t.afterSet w o).removed = t.removed := by cases o <;> rfl
@[simp] theorem afterSet_cancelled : (t.afterSet w o).cancelled = t.cancelled := by cases o <;> rfl

theorem afterSet_finished (h : t.finished = true) : (t.afterSet w o).finished = true := by
  cases o <;> simp [afterSet, h]

/-- After a read a task changes only its phase. -/
theorem afterRead_eq [DecidableEq P] (t : Task D P) (current : Bool) (w : Work) (r : Result) :
    ∃ p, t.afterRead current w r = { t with phase := p } := by
  unfold afterRead
  repeat' first | exact ⟨_, rfl⟩ | split

/-- After a read the task released the lock. -/
theorem afterRead_phase [DecidableEq P] (t : Task D P) (current : Bool) (w : Work) (r : Result) :
    (t.afterRead current w r).phase = .ended ∨
      ∃ v, (t.afterRead current w r).phase = .sleeping v ∨
        (t.afterRead current w r).phase = .waiting v := by
  unfold afterRead
  repeat' first | exact .inl rfl | exact .inr ⟨_, .inl rfl⟩ | exact .inr ⟨_, .inr rfl⟩ | split

end Task

theorem Item.writer_ne_task {D P : Type*} (x : Item D P) {j i : Nat} (k : Nat) (w : Work) :
    x.writer j i ≠ .task k w := by
  unfold Item.writer
  split <;> simp

namespace Sequencer

variable {D U P : Type*} {unit : D → U}
  {s s' : Sequencer D U P} {d : D} {k : Nat} {t t' : Task D P} {l : Event D}

theorem current_iff : s.current d k = true ↔ s.running d = some k := by simp [current]

theorem finishAll_tasks : s.finishAll.tasks[k]? =
    s.tasks[k]?.map fun t => if s.running t.device = some k then t.stop else t := by
  simp [finishAll]

/-- `finish_all()` stops the registered tasks. -/
theorem finishAll_stops (k : Nat) : s.finishAll.tasks[k]? = s.tasks[k]? ∨
    s.finishAll.tasks[k]? = s.tasks[k]?.map Task.stop := by
  rw [finishAll_tasks]
  cases s.tasks[k]? with
  | none => exact .inl rfl
  | some t =>
    by_cases hr : s.running t.device = some k
    · exact .inr (by simp [hr])
    · exact .inl (by simp [hr])

@[grind =] theorem setTask_tasks : (s.setTask k t).tasks = s.tasks.set k t := rfl
@[grind =] theorem setTask_running : (s.setTask k t).running = s.running := rfl

variable [DecidableEq D]

@[simp] theorem pop_calls : (s.pop d).calls = s.calls := by unfold pop; split <;> rfl
@[simp] theorem pop_finals : (s.pop d).finals = s.finals := by unfold pop; split <;> rfl
@[simp] theorem pop_finish : (s.pop d).finish = s.finish := by unfold pop; split <;> rfl
@[simp] theorem pop_lock : (s.pop d).lock = s.lock := by unfold pop; split <;> rfl
@[simp] theorem pop_log : (s.pop d).log = s.log := by unfold pop; split <;> rfl

@[simp] theorem start_calls {q : Sequence P} : (s.start d q).calls = s.calls := by simp [start]
@[simp] theorem start_finals {q : Sequence P} : (s.start d q).finals = s.finals := by simp [start]
@[simp] theorem start_finish {q : Sequence P} : (s.start d q).finish = s.finish := by simp [start]
@[simp] theorem start_lock {q : Sequence P} : (s.start d q).lock = s.lock := by simp [start]
@[simp] theorem start_log {q : Sequence P} : (s.start d q).log = s.log := by simp [start]

@[simp] theorem startItem_calls {x : Item D P} : (s.startItem x).calls = s.calls := by
  unfold startItem; split <;> simp
@[simp] theorem startItem_finals {x : Item D P} : (s.startItem x).finals = s.finals := by
  unfold startItem; split <;> simp
@[simp] theorem startItem_finish {x : Item D P} : (s.startItem x).finish = s.finish := by
  unfold startItem; split <;> simp
@[simp] theorem startItem_lock {x : Item D P} : (s.startItem x).lock = s.lock := by
  unfold startItem; split <;> simp
@[simp] theorem startItem_log {x : Item D P} : (s.startItem x).log = s.log := by
  unfold startItem; split <;> simp

@[simp] theorem endSequence_calls : (s.endSequence d k).calls = s.calls := by
  unfold endSequence; split <;> rfl
@[simp] theorem endSequence_finals : (s.endSequence d k).finals = s.finals := by
  unfold endSequence; split <;> rfl
@[simp] theorem endSequence_finish : (s.endSequence d k).finish = s.finish := by
  unfold endSequence; split <;> rfl
@[simp] theorem endSequence_lock : (s.endSequence d k).lock = s.lock := by
  unfold endSequence; split <;> rfl
@[simp] theorem endSequence_log : (s.endSequence d k).log = s.log := by
  unfold endSequence; split <;> rfl

@[simp] theorem advance_calls : (s.advance k t).calls = s.calls := by
  unfold advance; split <;> simp
@[simp] theorem advance_finals : (s.advance k t).finals = s.finals := by
  unfold advance; split <;> simp
@[simp] theorem advance_finish : (s.advance k t).finish = s.finish := by
  unfold advance; split <;> simp
@[simp] theorem advance_lock : (s.advance k t).lock = s.lock := by
  unfold advance; split <;> simp
@[simp] theorem advance_log : (s.advance k t).log = s.log := by
  unfold advance; split <;> simp

@[simp, grind =] theorem pop_running {d' : D} :
    (s.pop d).running d' = if d' = d then none else s.running d' := by
  unfold pop
  split
  · grind
  · exact Function.update_apply ..

@[simp, grind =] theorem pop_tasks :
    (s.pop d).tasks[k]? = if s.running d = some k then s.tasks[k]?.map Task.stop else s.tasks[k]? := by
  unfold pop
  split <;> grind

@[simp, grind =] theorem pop_tasks_length : (s.pop d).tasks.length = s.tasks.length := by
  unfold pop
  split <;> simp

@[simp, grind =] theorem start_running {q : Sequence P} {d' : D} :
    (s.start d q).running d' = if d' = d then some s.tasks.length else s.running d' := by
  simp only [start, setRunning, Function.update_apply, pop_tasks_length]
  grind

@[grind =] theorem start_tasks {q : Sequence P} :
    (s.start d q).tasks[k]? =
      if k = s.tasks.length then some { device := d, sequence := q } else (s.pop d).tasks[k]? := by
  simp only [start]
  grind

@[simp, grind =] theorem advance_running {d' : D} :
    (s.advance k t).running d' =
      if (t.finished || t.phase = .ended) && d' = t.device && s.running d' = some k then none
      else s.running d' := by
  unfold advance endSequence
  split <;> try split
  all_goals simp_all [current, Function.update_apply]
  all_goals grind

@[simp, grind =] theorem advance_tasks : (s.advance k t).tasks = s.tasks.set k t := by
  unfold advance endSequence
  split <;> try split
  all_goals rfl

/-- Who is in `_running`. -/
structure Registered (s : Sequencer D U P) : Prop where
  entry : ∀ d k, s.running d = some k → ∃ t, s.tasks[k]? = some t ∧ t.device = d
  registered : ∀ (k : Nat) (t : Task D P), s.tasks[k]? = some t →
    (s.running t.device = some k ↔ t.removed = false ∧ t.finished = false ∧ t.phase ≠ .ended)
  cancelled : ∀ (k : Nat) (t : Task D P), s.tasks[k]? = some t → t.cancelled = true → t.removed = true

namespace Registered

omit [DecidableEq D] in
theorem congr (h : s.Registered) (hr : s'.running = s.running) (ht : s'.tasks = s.tasks) :
    s'.Registered :=
  ⟨by rw [hr, ht]; exact h.entry, by rw [hr, ht]; exact h.registered, by rw [ht]; exact h.cancelled⟩

theorem pop (h : s.Registered) (d : D) : (s.pop d).Registered := by
  obtain ⟨entry, registered, cancelled⟩ := h
  constructor
  · intro d' k' hk'
    grind [Task.stop_device]
  · intro k' t' ht'
    grind [Task.stop_device, Task.stop_removed]
  · intro k' t' ht'
    grind [Task.stop_removed]

theorem start (h : s.Registered) (d : D) (q : Sequence P) : (s.start d q).Registered := by
  obtain ⟨entry, registered, cancelled⟩ := h.pop d
  have fresh : ∀ d', s.running d' ≠ some s.tasks.length := by
    intro d' hd'
    obtain ⟨t, ht, -⟩ := h.entry d' _ hd'
    simp at ht
  constructor
  · intro d' k' hk'
    by_cases hd : d' = d
    · exact ⟨{ device := d, sequence := q }, by grind, hd.symm⟩
    · obtain ⟨t, ht, hdt⟩ := entry d' k' (by grind)
      exact ⟨t, by grind, hdt⟩
  · intro k' t' ht'
    grind
  · intro k' t' ht'
    grind

theorem startItem (h : s.Registered) (x : Item D P) : (s.startItem x).Registered := by
  unfold Sequencer.startItem
  split
  · exact h
  · exact h.start _ _

omit [DecidableEq D] in
/-- Another record of a task of the same device keeps the numbers in `_running` known. -/
theorem entry_set (h : s.Registered) (ht : s.tasks[k]? = some t) (device : t'.device = t.device)
    {d' : D} {k' : Nat} (hk : s.running d' = some k') :
    ∃ t'', (s.tasks.set k t')[k']? = some t'' ∧ t''.device = d' := by
  obtain ⟨t₁, ht₁, hd⟩ := h.entry d' k' hk
  by_cases hkk : k' = k
  · exact ⟨t', by grind, by grind⟩
  · exact ⟨t₁, by grind, hd⟩

/-- A task goes on; it ends with its sequence. -/
theorem advance (h : s.Registered) (ht : s.tasks[k]? = some t) (device : t'.device = t.device)
    (removed : t'.removed = t.removed) (cancelled : t'.cancelled = t.cancelled)
    (live : t.phase ≠ .ended) (finished : t.finished = true → t'.finished = true) :
    (s.advance k t').Registered where
  entry d' k' hk' := by
    rw [advance_tasks]
    exact h.entry_set ht device (by grind)
  registered k' t'' ht'' := by
    have own := h.registered k t ht
    have other := h.registered k' t''
    have entry := h.entry t'.device k
    grind
  cancelled k' t'' ht'' := by
    have own := h.cancelled k t ht
    have other := h.cancelled k' t''
    grind

omit [DecidableEq D] in
theorem setTask (h : s.Registered) (ht : s.tasks[k]? = some t) (device : t'.device = t.device)
    (removed : t'.removed = t.removed) (cancelled : t'.cancelled = t.cancelled)
    (live : t.phase ≠ .ended) (finished : t'.finished = t.finished) (phase : t'.phase ≠ .ended) :
    (s.setTask k t').Registered where
  entry d' k' hk' := h.entry_set ht device hk'
  registered k' t'' ht'' := by
    have own := h.registered k t ht
    have other := h.registered k' t''
    grind
  cancelled k' t'' ht'' := by
    have own := h.cancelled k t ht
    have other := h.cancelled k' t''
    grind

omit [DecidableEq D] in
theorem finishAll (h : s.Registered) : s.finishAll.Registered := by
  obtain ⟨entry, registered, cancelled⟩ := h
  unfold Sequencer.finishAll
  constructor
  · intro d' k' hk'
    simp at hk'
  · intro k' t' ht'
    grind [Task.stop_removed, Task.stop_device]
  · intro k' t' ht'
    grind [Task.stop_removed]

variable [DecidableEq U] [DecidableEq P]

theorem step (h : s.Registered) (hs : Step unit s l s') : s'.Registered := by
  cases hs with
  | start d q => exact h.start d q
  | cancel d => exact h.pop d
  | wakeUp task live phase => exact h.setTask task rfl rfl rfl (by simp [phase]) rfl (by simp)
  | @begins k t w task live phase =>
    have locked : (s.setLock (unit t.device) (some (.task k))).Registered := h.congr rfl rfl
    exact locked.setTask task rfl rfl rfl (by simp [phase]) rfl (by simp)
  | @skips k t w task live phase =>
    have locked : (s.setLock (unit t.device) (some (.task k))).Registered := h.congr rfl rfl
    exact locked.setTask task rfl rfl rfl (by simp [phase]) rfl (by simp)
  | @ends k t w task phase o =>
    have logged : (s.record ⟨.task k w, t.device, o⟩).Registered := h.congr rfl rfl
    exact logged.advance task (by simp) (by simp) (by simp) (by simp [phase])
      Task.afterSet_finished
  | @reads k t w r task live phase =>
    obtain ⟨p, hp⟩ := t.afterRead_eq (s.current t.device k) w r
    have freed : (s.setLock (unit t.device) none).Registered := h.congr rfl rfl
    rw [hp]
    exact freed.advance task rfl rfl rfl (by simp [phase]) id
  | stopped task cancelled phase =>
    refine h.advance task rfl rfl rfl ?_ id
    rcases phase with ⟨w, phase⟩ | ⟨w, phase⟩ <;> simp [phase]
  | @stoppedRead k t w r task cancelled phase =>
    have freed : (s.setLock (unit t.device) none).Registered := h.congr rfl rfl
    exact freed.advance task rfl rfl rfl (by simp [phase]) id
  | @isSet j c i x call phase item =>
    have called : ((s.record ⟨x.writer j i, x.device, .success⟩).setCall j
      { c with phase := .reached (i + 1) }).Registered := h.congr rfl rfl
    exact called.startItem x
  | finishAll => exact h.finishAll
  | _ => exact h.congr rfl rfl

end Registered

/-! ## A sequence once taken out stays out -/

/-- `start()`, `cancel()`, a replacing change or `finish_all()` took out the sequence of the
device. -/
def Event.removes (l : Event D) (d : D) : Prop :=
  l = .start d ∨ l = .cancel d ∨ (∃ j i, l = .ends (.pulse j i) d .success) ∨ l = .finishAll

/-- A later record of the task `k`: what ended its sequence is kept, and a `device.set()` of the
task begins by its event. -/
structure Later (l : Event D) (k : Nat) (t a : Task D P) : Prop where
  device : a.device = t.device
  sequence : a.sequence = t.sequence
  removed : t.removed = true → a.removed = true
  finished : t.finished = true → a.finished = true
  ended : t.phase = .ended → a.phase = .ended
  removes : a.removed = true → t.removed = true ∨ l.removes t.device
  writing : ∀ w, a.phase = .writing w → t.phase = .writing w ∨ l = .begins (.task k w) t.device
  finishes : a.finished = true → t.finished = true ∨ ∃ w, t.phase = .writing w ∧
    t.sequence.last w = true ∧ l = .ends (.task k w) t.device .success

omit [DecidableEq D] in
theorem Later.refl (l : Event D) (k : Nat) (t : Task D P) : Later l k t t :=
  ⟨rfl, rfl, id, id, id, .inl, fun _ => .inl, .inl⟩

theorem later_pop (h : s.Registered) (task : s.tasks[k]? = some t) (hl : l.removes d) :
    ∃ a, (s.pop d).tasks[k]? = some a ∧ Later l k t a := by
  rw [pop_tasks]
  split
  · next hk =>
    obtain ⟨t₁, ht₁, hd⟩ := h.entry d k hk
    obtain rfl : t₁ = t := by simpa [task] using ht₁.symm
    exact ⟨t₁.stop, by simp [task], by simp, by simp, by simp, by simp, by simp,
      fun _ => .inr (hd ▸ hl), fun w hw => .inl (by simpa using hw),
      fun hf => .inl (by simpa using hf)⟩
  · exact ⟨t, task, .refl l k t⟩

theorem later_start (h : s.Registered) (task : s.tasks[k]? = some t) (q : Sequence P)
    (hl : l.removes d) : ∃ a, (s.start d q).tasks[k]? = some a ∧ Later l k t a := by
  have hk : k ≠ s.tasks.length := by grind
  simpa only [start_tasks, hk, if_false] using later_pop h task hl

omit [DecidableEq D] in
theorem later_set (task : s.tasks[k]? = some t) {j : Nat} {t₁ a₁ : Task D P}
    (own : s.tasks[j]? = some t₁) (later : Later l j t₁ a₁) :
    ∃ a, (s.tasks.set j a₁)[k]? = some a ∧ Later l k t a := by
  by_cases hk : k = j
  · subst hk
    obtain rfl : t₁ = t := by simpa [task] using own.symm
    exact ⟨a₁, by grind, later⟩
  · exact ⟨t, by grind, .refl l k t⟩

variable [DecidableEq U] [DecidableEq P]

/-- A task stays known, and what ended its sequence is kept. -/
theorem later_step (h : s.Registered) (hs : Step unit s l s') (task : s.tasks[k]? = some t) :
    ∃ a, s'.tasks[k]? = some a ∧ Later l k t a := by
  have phase : ∀ {j : Nat} {t₁ : Task D P} (p : Phase), s.tasks[j]? = some t₁ →
      t₁.phase ≠ .ended → (∀ w, p = .writing w → l = .begins (.task j w) t₁.device) →
      ∃ a, (s.tasks.set j { t₁ with phase := p })[k]? = some a ∧ Later l k t a :=
    fun p own live begins => later_set task own
      ⟨rfl, rfl, id, id, fun he => absurd he live, .inl, fun w hw => .inr (begins w hw), .inl⟩
  cases hs with
  | start d q => exact later_start h task q (.inl rfl)
  | cancel d => exact later_pop h task (.inr (.inl rfl))
  | wakeUp own live hp => exact phase _ own (by simp [hp]) (by simp)
  | begins own live hp => exact phase _ own (by simp [hp]) (by simp)
  | skips own live hp => exact phase _ own (by simp [hp]) (by simp)
  | @ends j t₁ w own hp o =>
    rw [advance_tasks]
    refine later_set task own ⟨by simp, by simp, by simp, Task.afterSet_finished,
      fun he => by simp [hp] at he, fun hr => .inl (by simpa using hr),
      fun v hv => by cases o <;> simp [Task.afterSet] at hv, fun hf => ?_⟩
    cases o with
    | failed e => exact .inl hf
    | success =>
      rcases Bool.or_eq_true _ _ ▸ hf with hf | last
      · exact .inl hf
      · exact .inr ⟨w, hp, last, rfl⟩
  | @reads j t₁ w r own live hp =>
    obtain ⟨p, hp'⟩ := t₁.afterRead_eq (s.current t₁.device j) w r
    have after := t₁.afterRead_phase (s.current t₁.device j) w r
    rw [hp'] at after
    rw [advance_tasks, hp']
    refine phase p own (by simp [hp]) fun v hv => ?_
    simp [hv] at after
  | stopped own cancelled hp =>
    rw [advance_tasks]
    refine phase _ own ?_ (by simp)
    rcases hp with ⟨w, hp⟩ | ⟨w, hp⟩ <;> simp [hp]
  | stoppedRead own cancelled hp =>
    rw [advance_tasks]
    exact phase _ own (by simp [hp]) (by simp)
  | @isSet j c i x call hp item =>
    unfold startItem
    split
    · exact ⟨t, task, .refl _ k t⟩
    · next q hq =>
      have pulse : x.writer j i = .pulse j i := by simp [Item.writer, hq]
      have known : ((s.record ⟨x.writer j i, x.device, .success⟩).setCall j
        { c with phase := .reached (i + 1) }).Registered := h.congr rfl rfl
      have removes : (Event.ends (x.writer j i) x.device .success).removes x.device :=
        .inr (.inr (.inl ⟨j, i, by rw [pulse]⟩))
      exact later_start known task q removes
  | finishAll =>
    rw [finishAll_tasks, task]
    refine ⟨_, rfl, ?_⟩
    by_cases hr : s.running t.device = some k
    · simp only [if_pos hr]
      exact ⟨by simp, by simp, by simp, by simp, by simp, fun _ => .inr (.inr (.inr (.inr rfl))),
        fun w hw => .inl (by simpa using hw), fun hf => .inl (by simpa using hf)⟩
    · simp only [if_neg hr]
      exact .refl _ k t
  | _ => exact ⟨t, task, .refl _ k t⟩

/-- A new task sleeps before its first step. -/
theorem new_step (hs : Step unit s l s') (new : s.tasks[k]? = none) (task : s'.tasks[k]? = some t) :
    t.phase = .sleeping (.step 0) ∧ t.finished = false := by
  have started : ∀ {r : Sequencer D U P} {e : D} {q : Sequence P}, r.tasks = s.tasks →
      (r.start e q).tasks[k]? = some t → t.phase = .sleeping (.step 0) ∧ t.finished = false := by
    intro r e q same ht
    rw [start_tasks, pop_tasks, same, new] at ht
    split at ht
    · cases ht
      exact ⟨rfl, rfl⟩
    · split at ht <;> cases ht
  have length : s.tasks.length ≤ k := by simpa using new
  cases hs with
  | start d q => exact started rfl task
  | cancel d => simp [cancel, new] at task
  | ends => simp [length] at task
  | reads => simp [length] at task
  | stopped => simp [length] at task
  | stoppedRead => simp [length] at task
  | wakeUp => simp [length] at task
  | begins => simp [length] at task
  | skips => simp [length] at task
  | isSet =>
    unfold startItem at task
    split at task
    · simp [new] at task
    · exact started (r := (s.record _).setCall _ _) rfl task
  | finishAll => simp [finishAll_tasks, new] at task
  | _ => exact absurd task (by simp [startFinals, new])

/-- A task of a state is a later record of one before the step, or a new one. -/
theorem earlier_step (h : s.Registered) (hs : Step unit s l s') (task : s'.tasks[k]? = some t) :
    (∃ t₀, s.tasks[k]? = some t₀ ∧ Later l k t₀ t) ∨
      t.phase = .sleeping (.step 0) ∧ t.finished = false := by
  cases old : s.tasks[k]? with
  | none => exact .inr (new_step hs old task)
  | some t₀ =>
    obtain ⟨a, ha, later⟩ := later_step h hs old
    obtain rfl : a = t := by simpa [task] using ha.symm
    exact .inl ⟨t₀, rfl, later⟩

/-- The task of a sequence begins a `device.set()` only while its sequence is registered. -/
theorem current_of_begins {w : Work} (hs : Step unit s (.begins (.task k w) d) s') :
    ∃ t, s.tasks[k]? = some t ∧ t.device = d ∧ t.phase = .waiting w ∧ s.running d = some k ∧
      s.lock (unit d) = none := by
  generalize hl : Event.begins (.task k w) d = l at hs
  cases hs with
  | begins task live phase free current =>
    cases hl
    exact ⟨_, task, rfl, phase, current_iff.mp current, free⟩
  | @sets j c i x call phase item accepted =>
    exact absurd (Event.begins.inj hl).1.symm (x.writer_ne_task k w)
  | _ => cases hl

/-- The task of a sequence ends only its own `device.set()`. -/
theorem writing_of_ends {w : Work} {o : Outcome} (hs : Step unit s (.ends (.task k w) d o) s') :
    ∃ t, s.tasks[k]? = some t ∧ t.device = d ∧ t.phase = .writing w := by
  generalize hl : Event.ends (.task k w) d o = l at hs
  cases hs with
  | ends task phase o' =>
    cases hl
    exact ⟨_, task, rfl, phase⟩
  | @isSet j c i x => exact absurd (Event.ends.inj hl).1.symm (x.writer_ne_task k w)
  | @raises j c i x => exact absurd (Event.ends.inj hl).1.symm (x.writer_ne_task k w)
  | _ => cases hl

/-- A sequence which is not in `_running` is never in it again. -/
theorem never_current (h : s.Registered) (hs : Step unit s l s') (task : s.tasks[k]? = some t)
    (out : s.running t.device ≠ some k) : s'.running t.device ≠ some k := by
  obtain ⟨a, ha, later⟩ := later_step h hs task
  intro hk
  have flags := ((h.step hs).registered k a ha).mp (by rw [later.device]; exact hk)
  refine out ((h.registered k t task).mpr ⟨?_, ?_, fun he => flags.2.2 (later.ended he)⟩)
  · by_contra hr
    have := later.removed (by simpa using hr)
    simp [flags.1] at this
  · by_contra hf
    have := later.finished (by simpa using hf)
    simp [flags.2.1] at this

end Sequencer

end Evok
