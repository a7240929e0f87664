import Evok.Sequencer.Registry

/-!
# The locks of the units

A task which writes or reads, a change between its lock and its end and a final write hold the
lock of their unit, so only one `device.set()` of a unit runs at a time.

## Main results

* `Sequencer.Locked` : who holds the locks, kept by every step.
-/

namespace Evok

/-- The task holds the lock of its unit. -/
@[grind] def Phase.holds : Phase → Bool
  | .writing _ | .reading _ _ => true
  | _ => false

/-- The change holds the lock of its unit. -/
@[grind] def CallPhase.holds : CallPhase → Bool
  | .waiting | .ended => false
  | _ => true

/-- The final write holds the lock of its unit. -/
@[grind] def FinalPhase.holds : FinalPhase → Bool
  | .writing _ | .reading _ => true
  | _ => false

namespace Sequencer

variable {D U P : Type*} {unit : D → U}
  {s s' : Sequencer D U P} {d : D} {u : U} {k j : Nat} {t a : Task D P} {c b : Call D U P}
  {l : Event D}

/-- The holder is in a change of the unit. -/
def Holds (unit : D → U) (s : Sequencer D U P) (u : U) : Holder D → Prop
  | .task k => ∃ t, s.tasks[k]? = some t ∧ unit t.device = u ∧ t.phase.holds = true
  | .call j => ∃ c, s.calls[j]? = some c ∧ c.unit = u ∧ c.phase.holds = true
  | .final d => unit d = u ∧ (s.finals d).holds = true

/-! ## The holders after an operation -/

theorem holds_congr (ht : s'.tasks = s.tasks) (hc : s'.calls = s.calls)
    (hf : s'.finals = s.finals) {h : Holder D} : Holds unit s' u h ↔ Holds unit s u h := by
  cases h <;> simp [Holds, ht, hc, hf]

theorem holds_record {w : Write D} {h : Holder D} :
    Holds unit (s.record w) u h ↔ Holds unit s u h := holds_congr rfl rfl rfl

theorem holds_setTask (ht : s.tasks[k]? = some t) (hs : s'.tasks = s.tasks.set k a)
    (hc : s'.calls = s.calls) (hf : s'.finals = s.finals) {h : Holder D} :
    Holds unit s' u h ↔
      (h = .task k ∧ unit a.device = u ∧ a.phase.holds = true) ∨
      (h ≠ .task k ∧ Holds unit s u h) := by
  have bound : k < s.tasks.length := (List.getElem?_eq_some_iff.mp ht).1
  cases h with
  | task k' =>
    by_cases hk : k' = k
    · subst hk
      simp [Holds, hs, bound]
    · simp [Holds, hs, hk, List.getElem?_set_ne (Ne.symm hk)]
  | call j => simp [Holds, hc]
  | final d => simp [Holds, hf]

theorem holds_setCall (hj : s.calls[j]? = some c) {h : Holder D} :
    Holds unit (s.setCall j b) u h ↔
      (h = .call j ∧ b.unit = u ∧ b.phase.holds = true) ∨ (h ≠ .call j ∧ Holds unit s u h) := by
  have bound : j < s.calls.length := (List.getElem?_eq_some_iff.mp hj).1
  cases h with
  | task k => simp [Holds]
  | call i =>
    by_cases hi : i = j
    · subst hi
      simp [Holds, bound]
    · simp [Holds, hi, List.getElem?_set_ne (Ne.symm hi)]
  | final d => simp [Holds]

/-- Stopped tasks hold what they held. -/
theorem holds_stop (ht : ∀ k : Nat, s'.tasks[k]? = s.tasks[k]? ∨ s'.tasks[k]? = s.tasks[k]?.map Task.stop)
    (hc : s'.calls = s.calls) (hf : s'.finals = s.finals) {h : Holder D} :
    Holds unit s' u h ↔ Holds unit s u h := by
  cases h with
  | task k =>
    rcases ht k with hk | hk
    · simp [Holds, hk]
    · cases htk : s.tasks[k]? <;> simp [Holds, hk, htk]
  | call j => simp [Holds, hc]
  | final d => simp [Holds, hf]

theorem holds_finishAll {h : Holder D} : Holds unit s.finishAll u h ↔ Holds unit s u h :=
  holds_stop finishAll_stops rfl rfl

theorem holds_setLock [DecidableEq U] {v : U} {x : Option (Holder D)} {h : Holder D} :
    Holds unit (s.setLock v x) u h ↔ Holds unit s u h := holds_congr rfl rfl rfl

section Changed

variable [DecidableEq D]

theorem holds_setFinal {f : FinalPhase} {h : Holder D} :
    Holds unit (s.setFinal d f) u h ↔
      (h = .final d ∧ unit d = u ∧ f.holds = true) ∨ (h ≠ .final d ∧ Holds unit s u h) := by
  cases h with
  | task k => simp [Holds]
  | call i => simp [Holds]
  | final e =>
    by_cases he : e = d
    · subst he
      simp [Holds]
    · simp [Holds, he]

theorem holds_pop (d : D) {h : Holder D} : Holds unit (s.pop d) u h ↔ Holds unit s u h := by
  refine holds_stop (s := s) (fun k => ?_) (by simp) (by simp)
  rw [pop_tasks]
  split
  · exact .inr rfl
  · exact .inl rfl

theorem holds_start (d : D) (q : Sequence P) {h : Holder D} :
    Holds unit (s.start d q) u h ↔ Holds unit s u h := by
  rw [← holds_pop d (s := s)]
  cases h with
  | task k =>
    by_cases hk : k = s.tasks.length
    · simp [Holds, start_tasks, hk, Phase.holds]
    · simp only [Holds, start_tasks, hk, if_false]
  | call j => simp [Holds]
  | final d => simp [Holds]

theorem holds_startItem (x : Item D P) {h : Holder D} :
    Holds unit (s.startItem x) u h ↔ Holds unit s u h := by
  unfold startItem
  split
  · rfl
  · exact holds_start _ _

end Changed

/-- The lock of a unit is held by the one in a change of the unit. -/
structure Locked (unit : D → U) (s : Sequencer D U P) : Prop where
  held : ∀ u h, s.lock u = some h ↔ Holds unit s u h
  /-- No final state is written before `finish_all()` awaited the tasks. -/
  early : (∀ d, s.finals d = .none) ∨ s.finish = .finals ∨ s.finish = .returned

namespace Locked

theorem congr (h : Locked unit s) (lock : s'.lock = s.lock) (finals : s'.finals = s.finals)
    (finish : s'.finish = s.finish) (holds : ∀ u x, Holds unit s' u x ↔ Holds unit s u x) :
    Locked unit s' :=
  ⟨fun u x => by rw [lock, holds]; exact h.held u x, by rw [finals, finish]; exact h.early⟩

/-- A task goes on without taking or releasing the lock. -/
theorem keepTask (h : Locked unit s) (ht : s.tasks[k]? = some t) (device : a.device = t.device)
    (holds : a.phase.holds = t.phase.holds) (tasks : s'.tasks = s.tasks.set k a)
    (calls : s'.calls = s.calls) (finals : s'.finals = s.finals) (finish : s'.finish = s.finish)
    (lock : s'.lock = s.lock) : Locked unit s' := by
  refine h.congr lock finals finish fun u y => ?_
  rw [holds_setTask ht tasks calls finals, device, holds]
  cases y with
  | task k' =>
    by_cases hk : k' = k
    · subst hk
      simp [Holds, ht]
    · simp [hk]
  | _ => simp

variable {x : CallPhase}

/-- A change goes on without taking or releasing the lock. -/
theorem keepCall (h : Locked unit s) (hj : s.calls[j]? = some c)
    (holds : x.holds = c.phase.holds)
    (same : ∀ u y, Holds unit s' u y ↔ Holds unit (s.setCall j { c with phase := x }) u y)
    (finals : s'.finals = s.finals) (finish : s'.finish = s.finish) (lock : s'.lock = s.lock) :
    Locked unit s' := by
  refine h.congr lock finals finish fun u y => ?_
  rw [same, holds_setCall hj]
  cases y with
  | call i =>
    by_cases hi : i = j
    · subst hi
      simp [Holds, hj, holds]
    · simp [hi]
  | _ => simp

variable [DecidableEq U]

/-- The holder takes a free lock. -/
theorem take {x : Holder D} (h : Locked unit s) (free : s.lock u = none)
    (lock : s'.lock = Function.update s.lock u (some x))
    (early : (∀ d, s'.finals d = .none) ∨ s'.finish = .finals ∨ s'.finish = .returned)
    (holds : ∀ v y, Holds unit s' v y ↔ (y = x ∧ u = v) ∨ (y ≠ x ∧ Holds unit s v y))
    (new : ∀ v, ¬ Holds unit s v x) : Locked unit s' where
  held v y := by
    rw [lock, holds, Function.update_apply]
    split
    · next hv =>
      subst hv
      have none : ¬ Holds unit s v y := fun hy => by simp [(h.held v y).mpr hy] at free
      simp [none, eq_comm]
    · next hv =>
      rw [h.held]
      have ne : y = x → ¬ Holds unit s v y := fun e => e ▸ new v
      grind
  early := early

/-- The holder releases its lock. -/
theorem release {x : Holder D} (h : Locked unit s) (held : Holds unit s u x)
    (lock : s'.lock = Function.update s.lock u none)
    (early : (∀ d, s'.finals d = .none) ∨ s'.finish = .finals ∨ s'.finish = .returned)
    (holds : ∀ v y, Holds unit s' v y ↔ y ≠ x ∧ Holds unit s v y)
    (own : ∀ v, Holds unit s v x → v = u) : Locked unit s' where
  held v y := by
    rw [lock, holds, Function.update_apply]
    have hx := (h.held u x).mpr held
    split
    · next hv =>
      subst hv
      have only : Holds unit s v y → y = x := fun hy => by
        simpa [hx] using ((h.held v y).mpr hy).symm
      grind
    · next hv =>
      rw [h.held]
      grind
  early := early

/-- A task takes the lock of its unit. -/
theorem takeTask (h : Locked unit s) (ht : s.tasks[k]? = some t) (device : a.device = t.device)
    (before : t.phase.holds = false) (after : a.phase.holds = true)
    (free : s.lock (unit t.device) = none) (tasks : s'.tasks = s.tasks.set k a)
    (calls : s'.calls = s.calls) (finals : s'.finals = s.finals) (finish : s'.finish = s.finish)
    (lock : s'.lock = Function.update s.lock (unit t.device) (some (.task k))) :
    Locked unit s' := by
  refine h.take free lock (by rw [finals, finish]; exact h.early) (fun v y => ?_) ?_
  · rw [holds_setTask ht tasks calls finals, device, after]
    simp
  · simp [Holds, ht, before]

/-- A task releases the lock of its unit. -/
theorem releaseTask (h : Locked unit s) (ht : s.tasks[k]? = some t)
    (before : t.phase.holds = true) (after : a.phase.holds = false)
    (tasks : s'.tasks = s.tasks.set k a) (calls : s'.calls = s.calls)
    (finals : s'.finals = s.finals) (finish : s'.finish = s.finish)
    (lock : s'.lock = Function.update s.lock (unit t.device) none) : Locked unit s' := by
  refine h.release (x := .task k) ⟨t, ht, rfl, before⟩ lock (by rw [finals, finish]; exact h.early)
    (fun v y => ?_) ?_
  · rw [holds_setTask ht tasks calls finals, after]
    simp
  · simp +contextual [Holds, ht]

variable [DecidableEq D] [DecidableEq P]

theorem step (h : Locked unit s) (hs : Step unit s l s') : Locked unit s' := by
  cases hs with
  | start d q =>
    exact h.congr start_lock start_finals start_finish fun u x => holds_start d q
  | cancel d => exact h.congr pop_lock pop_finals pop_finish fun u x => holds_pop d
  | @wakeUp k t w task live phase =>
    exact h.keepTask task (a := { t with phase := .waiting w }) rfl
      (by simp [phase, Phase.holds]) rfl rfl rfl rfl rfl
  | @begins k t w task live phase free current =>
    exact h.takeTask task (a := { t with phase := .writing w }) rfl
      (by simp [phase, Phase.holds]) rfl free rfl rfl rfl rfl rfl
  | @skips k t w task live phase free removed =>
    exact h.takeTask task (a := { t with phase := .reading w .skipped }) rfl
      (by simp [phase, Phase.holds]) rfl free rfl rfl rfl rfl rfl
  | @ends k t w task phase o =>
    refine h.keepTask task Task.afterSet_device ?_ advance_tasks advance_calls advance_finals
      advance_finish advance_lock
    cases o <;> simp [phase, Phase.holds, Task.afterSet]
  | @reads k t w r task live phase =>
    refine h.releaseTask task (by simp [phase, Phase.holds]) ?_ advance_tasks advance_calls
      advance_finals advance_finish advance_lock
    obtain hp | ⟨v, hp | hp⟩ := t.afterRead_phase (s.current t.device k) w r <;>
      simp [hp, Phase.holds]
  | @stopped k t task cancelled phase =>
    refine h.keepTask task (a := { t with phase := .ended }) rfl ?_ advance_tasks advance_calls advance_finals advance_finish
      advance_lock
    rcases phase with ⟨w, phase⟩ | ⟨w, phase⟩ <;> simp [phase, Phase.holds]
  | @stoppedRead k t w r task cancelled phase =>
    exact h.releaseTask task (a := { t with phase := .ended }) (by simp [phase, Phase.holds]) rfl advance_tasks advance_calls
      advance_finals advance_finish advance_lock
  | request u items ofUnit =>
    refine h.congr rfl rfl rfl fun v y => ?_
    cases y with
    | call i =>
      by_cases hi : i = s.calls.length
      · subst hi
        simp [Holds, CallPhase.holds]
      · have old : (s.calls ++ [(⟨u, items, .waiting⟩ : Call D U P)])[i]? = s.calls[i]? := by grind
        simp only [Holds, old]
    | _ => rfl
  | @locks j c call phase free =>
    refine h.take (x := .call j) free rfl h.early (fun v y => ?_) ?_
    · rw [holds_setCall (s := s.setLock _ _) call, holds_setLock]
      simp [CallPhase.holds]
    · simp [Holds, call, phase, CallPhase.holds]
  | available call phase =>
    exact h.keepCall call (by simp [phase, CallPhase.holds]) (fun _ _ => .rfl) rfl rfl rfl
  | sets call phase item accepted =>
    exact h.keepCall call (by simp [phase, CallPhase.holds]) (fun _ _ => .rfl) rfl rfl rfl
  | refused call phase item refused =>
    exact h.keepCall call (by simp [phase, CallPhase.holds]) (fun _ _ => .rfl) rfl rfl rfl
  | done call phase item =>
    exact h.keepCall call (by simp [phase, CallPhase.holds]) (fun _ _ => .rfl) rfl rfl rfl
  | @isSet j c i x call phase item =>
    refine h.keepCall call (x := .reached (i + 1)) (by simp [phase, CallPhase.holds])
      (fun u y => ?_) startItem_finals startItem_finish startItem_lock
    rw [holds_startItem]
    exact holds_congr rfl rfl rfl
  | raises call phase item e =>
    exact h.keepCall call (x := .reading) (by simp [phase, CallPhase.holds])
      (fun _ _ => holds_congr rfl rfl rfl) rfl rfl rfl
  | leaves call phase =>
    exact h.keepCall call (by simp [phase, CallPhase.holds]) (fun _ _ => .rfl) rfl rfl rfl
  | @releases j c call phase =>
    refine h.release (x := .call j) ⟨c, call, rfl, ?_⟩ rfl h.early (fun v y => ?_) ?_
    · rcases phase with phase | phase <;> simp [phase, CallPhase.holds]
    · rw [holds_setCall (s := s.setLock _ _) call, holds_setLock]
      simp [CallPhase.holds]
    · simp +contextual [Holds, call]
  | finishAll idle =>
    refine ⟨fun u y => (h.held u y).trans holds_finishAll.symm, .inl ?_⟩
    have early := h.early
    rw [idle] at early
    exact early.resolve_right (by simp)
  | @finals candidates writing phase ended =>
    have none : ∀ d, s.finals d = .none := by
      have early := h.early
      rw [phase] at early
      exact early.resolve_right (by simp)
    have idle : ∀ d, ((s.startFinals candidates).finals d).holds = false := by
      intro d
      simp only [startFinals]
      split <;> rfl
    refine ⟨fun u y => (h.held u y).trans ?_, .inr (.inl rfl)⟩
    cases y with
    | final d =>
      simp only [Holds, idle, none]
      simp [FinalPhase.holds]
    | _ => rfl
  | @finalBegins d k phase free =>
    have begun : s.finish = .finals ∨ s.finish = .returned :=
      h.early.resolve_left fun none => by simp [none] at phase
    refine h.take (x := .final d) free rfl (.inr begun) (fun v y => ?_) ?_
    · rw [holds_setFinal, holds_setLock]
      simp [FinalPhase.holds]
    · simp [Holds, phase, FinalPhase.holds]
  | @finalEnds d k phase o =>
    have begun : s.finish = .finals ∨ s.finish = .returned :=
      h.early.resolve_left fun none => by simp [none] at phase
    refine ⟨fun u y => (h.held u y).trans ?_, .inr begun⟩
    rw [holds_setFinal, holds_record]
    cases y with
    | final e =>
      by_cases he : e = d
      · subst he
        simp [Holds, phase, FinalPhase.holds]
      · simp [he]
    | _ => simp
  | @finalReads d k phase =>
    have begun : s.finish = .finals ∨ s.finish = .returned :=
      h.early.resolve_left fun none => by simp [none] at phase
    refine h.release (x := .final d) ⟨rfl, by simp [phase, FinalPhase.holds]⟩ rfl (.inr begun)
      (fun v y => ?_) ?_
    · rw [holds_setFinal, holds_setLock]
      simp [FinalPhase.holds]
    · exact fun v hv => hv.1.symm
  | returns phase ended =>
    exact ⟨fun u y => (h.held u y).trans (holds_congr rfl rfl rfl).symm, .inr (.inr rfl)⟩

end Locked

/-- The assignments of a change are of its unit. -/
def Grouped (unit : D → U) (s : Sequencer D U P) : Prop :=
  ∀ (j : Nat) (c : Call D U P), s.calls[j]? = some c → ∀ x ∈ c.items, unit x.device = c.unit

theorem Grouped.setCall {p : CallPhase} (h : Grouped unit s) (call : s.calls[j]? = some c)
    (calls : s'.calls = s.calls.set j { c with phase := p }) : Grouped unit s' := by
  intro i c' call' x hx
  rw [calls] at call'
  by_cases hi : i = j
  · subst hi
    obtain rfl : ({ c with phase := p } : Call D U P) = c' := by grind
    exact h i c call x hx
  · exact h i c' (by grind) x hx

variable [DecidableEq D] [DecidableEq U] [DecidableEq P]

theorem Grouped.step (h : Grouped unit s) (hs : Step unit s l s') : Grouped unit s' := by
  have same : s'.calls = s.calls → Grouped unit s' := fun e => by rw [Grouped, e]; exact h
  cases hs with
  | request u items ofUnit =>
    intro i c call x hx
    by_cases hi : i = s.calls.length
    · obtain rfl : (⟨u, items, .waiting⟩ : Call D U P) = c := by grind
      exact ofUnit x hx
    · exact h i c (by grind) x hx
  | locks call => exact h.setCall call rfl
  | available call => exact h.setCall call rfl
  | sets call => exact h.setCall call rfl
  | refused call => exact h.setCall call rfl
  | done call => exact h.setCall call rfl
  | isSet call => exact h.setCall call startItem_calls
  | raises call => exact h.setCall call rfl
  | leaves call => exact h.setCall call rfl
  | releases call => exact h.setCall call rfl
  | start => exact same start_calls
  | cancel => exact same pop_calls
  | ends => exact same advance_calls
  | reads => exact same advance_calls
  | stopped => exact same advance_calls
  | stoppedRead => exact same advance_calls
  | _ => exact same rfl

end Sequencer

end Evok
