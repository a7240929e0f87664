import Evok.Bus.Moves

/-!
# Sessions exclude the other requests of their unit

A turn lets an other request of a unit pass a session of the unit, so a turn must not outlive
the request it was given to. `TurnsQueued` ties every turn to a request which still waits. With
at most one outstanding other request of a unit, a session whose request was granted keeps
`Entered` until it ends: no other request of the unit has a turn.

## Main results

* `SessionLock.TurnsQueued.step` : every turn belongs to a waiting request.
* `SessionLock.session_exclusive` : no other request of a unit is granted the bus between a
  granted request of a session of the unit and the end of the session.
-/

namespace Evok.Bus

/-- An other request of the unit, e.g. of its scan. -/
def Waiter.OtherOf (w : Waiter) (u : Nat) : Prop := w.unit = some u ∧ w.inSession = false

namespace SessionLock

variable {s s' : SessionLock} {t u : Nat} {w : Waiter} {x : TaskState}

/-! ## What `_wake` chooses -/

theorem not_blocked_of_hasTurn {unit : Option Nat} {b : Bool} (h : s.hasTurn unit = true) :
    s.blocked unit b = false := by
  simp [blocked, h]

/-- The chosen waiter is not blocked. -/
theorem not_blocked_of_choose (h : s.choose = some w) : s.blocked w.unit w.inSession = false := by
  simp only [choose, Option.orElse_eq_orElse, Option.orElse_eq_or, Option.or_eq_some_iff] at h
  rcases h with h | ⟨-, h | ⟨-, h | ⟨-, h⟩⟩⟩
  · have := List.find?_some h
    exact not_blocked_of_hasTurn (by simp_all)
  · split at h
    · simpa using List.find?_some h
    · cases h
  · have : w.inSession = true := List.find?_some (p := Waiter.inSession) h
    simp [blocked, this]
  · simpa using List.find?_some h

/-- A request of a session is chosen only while no other request has a turn. -/
theorem no_turn_of_choose_session (h : s.choose = some w) (hw : w.inSession = true) :
    ∀ v ∈ s.pending, v.inSession = false → s.hasTurn v.unit = false := by
  simp only [choose, Option.orElse_eq_orElse, Option.orElse_eq_or, Option.or_eq_some_iff] at h
  rcases h with h | ⟨h, -⟩
  · have := List.find?_some h
    simp [hw] at this
  · intro v hv hb
    simpa [hb] using List.find?_eq_none.mp h v hv

/-! ## The pending waiters and the turns only shrink -/

theorem useTurn_turns_subset : (s.useTurn w).turns ⊆ s.turns := by
  unfold useTurn
  split_ifs
  · exact Finset.Subset.refl _
  · exact Finset.filter_subset _ _
  · exact Finset.Subset.refl _

theorem pending_handOver_subset : ∀ v ∈ (s.handOver w).pending, v ∈ s.pending := by
  intro v hv
  obtain ⟨hm, hp⟩ := mem_pending.mp hv
  by_cases hvw : v.task = w.task
  · simp [hvw] at hp
  · refine mem_pending.mpr ⟨List.mem_of_mem_erase hm, ?_⟩
    simpa [Function.update_of_ne hvw] using hp

theorem pending_wake_subset : ∀ v ∈ s.wake.1.pending, v ∈ s.pending := by
  rcases s.wake_cases with ⟨hs, -⟩ | ⟨w, -, -, hs⟩
  · simp [hs]
  · rw [hs]; exact pending_handOver_subset

theorem wake_turns_subset : s.wake.1.turns ⊆ s.turns := by
  rcases s.wake_cases with ⟨hs, -⟩ | ⟨w, -, -, hs⟩
  · simp [hs]
  · rw [hs]; exact useTurn_turns_subset

@[simp] theorem wake_sessions : s.wake.1.sessions = s.sessions := by
  rcases s.wake_cases with ⟨hs, -⟩ | ⟨w, -, -, hs⟩ <;> simp [hs]

theorem leave_turns_subset : (s.leave t).turns ⊆ s.turns := Finset.filter_subset _ _

/-! ## A turn belongs to a waiting request -/

def TurnsQueued (s : SessionLock) : Prop :=
  ∀ u ∈ s.turns, ∃ w ∈ s.waiters, w.OtherOf u

namespace TurnsQueued

theorem mono (h : s.TurnsQueued) (ht : s'.turns ⊆ s.turns)
    (hw : ∀ w ∈ s.waiters, w ∈ s'.waiters) : s'.TurnsQueued := by
  intro u hu
  obtain ⟨w, hm, ho⟩ := h u (ht hu)
  exact ⟨w, hw w hm, ho⟩

/-- Only the turns of the pending requests are left. -/
theorem leave (s : SessionLock) (t : Nat) : (s.leave t).TurnsQueued := by
  intro u hu
  obtain ⟨-, ho⟩ := Finset.mem_filter.mp hu
  obtain ⟨w, hw, hb, hunit⟩ := mem_others.mp (of_decide_eq_true (by simpa using ho))
  exact ⟨w, by simpa using (mem_pending.mp hw).1, hunit, hb⟩

/-- A request which leaves the queue takes its turn with it. -/
theorem handOver (h : s.TurnsQueued) : (s.handOver w).TurnsQueued := by
  intro u hu
  obtain ⟨v, hv, ho⟩ := h u (useTurn_turns_subset hu)
  refine ⟨v, (List.mem_erase_of_ne ?_).mpr hv, ho⟩
  rintro rfl
  have turn : s.hasTurn v.unit = true := by
    simpa [ho.1] using useTurn_turns_subset (w := v) hu
  rw [handOver_turns, useTurn, if_neg (by simp [ho.2]), if_pos turn] at hu
  simp [ho.1] at hu

theorem endSession (h : s.TurnsQueued) : (s.endSession u).TurnsQueued := by
  intro v hv
  simp only [SessionLock.endSession, scheduleWake_turns, scheduleWake_waiters] at hv ⊢
  split at hv
  · next hu =>
    rcases Finset.mem_insert.mp hv with rfl | hv
    · obtain ⟨w, hw, hb, hunit⟩ := mem_others.mp hu
      exact ⟨w, (mem_pending.mp hw).1, hunit, hb⟩
    · exact h v hv
  · exact h v hv

theorem move {a b : SessionLock} {l : Event × Option Waiter} (h : a.TurnsQueued)
    (hm : Move s l a b) : b.TurnsQueued := by
  have same : ∀ {r : SessionLock}, r.turns = a.turns → r.waiters = a.waiters → r.TurnsQueued :=
    fun ht hw => h.mono ht.subset (fun _ hm => hw ▸ hm)
  cases hm with
  | take => exact same rfl rfl
  | enqueue => exact h.mono (Finset.Subset.refl _) (fun _ hw => List.mem_append_left _ hw)
  | handOver => exact h.handOver
  | @leave _ t => exact (TurnsQueued.leave a t).mono (Finset.Subset.refl _) (fun _ hw => hw)
  | stop => exact same rfl rfl
  | free => exact same (by simp) (by simp)
  | beginSession => exact same rfl rfl
  | endSession => exact h.endSession
  | unschedule => exact same rfl rfl

theorem step {l : Event × Option Waiter} (h : s.TurnsQueued) (hs : Step s l s') :
    s'.TurnsQueued := hs.preserves h fun _ _ hm ha => ha.move hm

end TurnsQueued

theorem Reachable.turnsQueued (h : s.Reachable) : s.TurnsQueued :=
  Transition.Reachable.invariant (fun _ e => by subst e; intro u hu; simp [init] at hu)
    (fun _ _ _ h hs => h.step hs) h

/-! ## A session in which a request was granted -/

/-- Each unit has at most one session at a time and at most one outstanding other request: its
change runs under the lock of the unit, its scan sends one request after another. -/
def Allowed (s : SessionLock) : Event → Prop
  | .acquire t unit session =>
    ∀ u, (s.request t unit session).OtherOf u → ∀ w ∈ s.waiters, ¬ w.OtherOf u
  | .beginSession u => s.sessions u = 0
  | _ => True

/-- The steps of a bus whose units keep to their sessions and scans. -/
def UnitStep (s : SessionLock) (l : Event × Option Waiter) (s' : SessionLock) : Prop :=
  s.Allowed l.1 ∧ Step s l s'

/-- A session of the unit runs, and no pending other request of the unit has its turn. -/
structure Entered (u : Nat) (s : SessionLock) : Prop where
  running : 0 < s.sessions u
  noTurn : u ∈ s.turns → ∀ w ∈ s.pending, ¬ w.OtherOf u

namespace Entered

theorem mono (h : Entered u s) (hs : s.sessions u ≤ s'.sessions u) (ht : s'.turns ⊆ s.turns)
    (hp : ∀ w ∈ s'.pending, w ∈ s.pending) : Entered u s' :=
  ⟨h.running.trans_le hs, fun hu w hw => h.noTurn (ht hu) w (hp w hw)⟩

/-- A pending other request of the unit of the session is blocked. -/
theorem blocked (h : Entered u s) (hw : w ∈ s.pending) (ho : w.OtherOf u) :
    s.blocked w.unit w.inSession = true :=
  blocked_iff.mpr ⟨ho.2, u, ho.1, h.running, fun hu => h.noTurn hu w hw ho⟩

/-- A new other request of the unit finds no turn: the turns belong to waiting requests. -/
theorem enqueue (h : Entered u s) (hq : s.TurnsQueued)
    (idle : ∀ v ∈ s.waiters, v.task ≠ w.task)
    (allowed : w.OtherOf u → ∀ v ∈ s.waiters, ¬ v.OtherOf u) : Entered u (s.enqueue w) := by
  refine ⟨h.running, fun hu v hv ho => ?_⟩
  obtain ⟨hm, hp⟩ := mem_pending.mp hv
  rcases List.mem_append.mp hm with hm | hm
  · rw [enqueue_tasks, Function.update_of_ne (idle v hm)] at hp
    exact h.noTurn hu v (mem_pending.mpr ⟨hm, hp⟩) ho
  · obtain rfl := List.mem_singleton.mp hm
    obtain ⟨z, hz, hzo⟩ := hq u hu
    exact allowed ho z hz hzo

theorem leave (h : Entered u s) (hx : x ≠ .waiting .pending) :
    Entered u ((s.leave t).setTask t x) :=
  h.mono le_rfl leave_turns_subset
    (fun w hw => pending_leave_subset w (pending_setTask_subset hx w hw))

theorem endSession {v : Nat} (h : Entered u s) (hv : v ≠ u) : Entered u (s.endSession v) := by
  have turns : u ∈ (s.endSession v).turns → u ∈ s.turns := by
    simp only [SessionLock.endSession, scheduleWake_turns]
    split
    · exact fun hu => (Finset.mem_insert.mp hu).resolve_left hv.symm
    · exact id
  have pending : (s.endSession v).pending = s.pending := by
    simp [SessionLock.endSession, SessionLock.pending]
  refine ⟨?_, fun hu w hw => h.noTurn (turns hu) w (pending ▸ hw)⟩
  simpa [SessionLock.endSession, Function.update_of_ne hv.symm] using h.running

/-- Until the session ends every move keeps it entered. -/
theorem move {a b : SessionLock} {l : Event × Option Waiter} (h : Entered u a) (inv : s.Inv)
    (hq : s.TurnsQueued) (allowed : s.Allowed l.1) (hl : l.1 ≠ .endSession u)
    (hm : Move s l a b) : Entered u b := by
  cases hm with
  | take => exact h.mono le_rfl (Finset.Subset.refl _) (pending_setTask_subset (by simp))
  | @enqueue t unit session event idle =>
    rw [event] at allowed
    exact h.enqueue hq (inv.queue.notMem_task idle) (allowed u)
  | handOver => exact h.mono (by simp) useTurn_turns_subset pending_handOver_subset
  | leave _ hx => exact h.leave hx
  | stop hx => exact h.mono le_rfl (Finset.Subset.refl _) (pending_setTask_subset hx)
  | free => exact h.mono (by simp) (by simp) (by simp [SessionLock.pending])
  | @beginSession a v _ =>
    have pending : ∀ w ∈ (a.beginSession v).pending, w ∈ a.pending :=
      fun w hw => mem_pending.mpr (mem_pending.mp hw)
    have turns : (a.beginSession v).turns = a.turns := rfl
    have sessions : a.sessions u ≤ (a.beginSession v).sessions u := by
      by_cases hv : u = v
      · simp [SessionLock.beginSession, hv]
      · simp [SessionLock.beginSession, Function.update_of_ne hv]
    exact h.mono sessions turns.subset pending
  | @endSession _ v event =>
    have hv : v ≠ u := fun hv => hl (by rw [event, hv])
    exact h.endSession hv
  | unschedule => exact ⟨h.running, h.noTurn⟩

/-- A granted request which is no other request of the unit: one of the unit is blocked, or its
turn belongs to a request which still waits. -/
theorem not_granted {l : Event × Option Waiter} (h : Entered u s) (inv : s.Inv)
    (hq : s.TurnsQueued) (allowed : s.Allowed l.1) (hl : l.1 ≠ .endSession u)
    (hs : Step s l s') (hw : l.2 = some w) : ¬ w.OtherOf u := by
  intro ho
  rcases hs.granted hw with ⟨-, hb, ⟨t, unit, session, event, rfl⟩, -⟩ | ⟨a, moves, hc, -⟩
  · rw [event] at allowed
    have turn : u ∈ s.turns := by
      by_contra hu
      have blocked := blocked_iff.mpr ⟨ho.2, u, ho.1, h.running, hu⟩
      rw [hb] at blocked
      cases blocked
    obtain ⟨z, hz, hzo⟩ := hq u turn
    exact allowed u ho z hz hzo
  · have entered : Entered u a :=
      moves_preserve moves h fun _ _ hm ha => ha.move inv hq allowed hl hm
    have := entered.blocked (mem_pending_of_choose hc) ho
    simp [not_blocked_of_choose hc] at this

/-- Until the session ends it stays entered, and no other request of its unit is granted. -/
theorem step {l : Event × Option Waiter} (h : Entered u s) (inv : s.Inv) (hq : s.TurnsQueued)
    (hs : s.UnitStep l s') (hl : l.1 ≠ .endSession u) :
    Entered u s' ∧ ∀ w, l.2 = some w → ¬ w.OtherOf u := by
  obtain ⟨allowed, hs⟩ := hs
  exact ⟨hs.preserves h fun _ _ hm ha => ha.move inv hq allowed hl hm,
    fun w hw => h.not_granted inv hq allowed hl hs hw⟩

end Entered

/-- A granted request of a session finds no pending other request with its turn. -/
theorem noTurn_of_wake (hg : s.wake.2 = some w) (hw : w.inSession = true) (u : Nat) :
    u ∈ s.wake.1.turns → ∀ v ∈ s.wake.1.pending, ¬ v.OtherOf u := by
  intro hu v hv ho
  rcases s.wake_cases with ⟨hs, -⟩ | ⟨z, -, hc, hs⟩
  · simp [hs] at hg
  · obtain rfl : z = w := by simpa [hs] using hg
    have := no_turn_of_choose_session hc hw v (pending_wake_subset v hv) ho.2
    rw [ho.1] at this
    simp [wake_turns_subset hu] at this

/-- The session of a granted request is entered, if it still runs. -/
theorem entered_of_grant {l : Event × Option Waiter} (hs : Step s l s') (hg : l.2 = some w)
    (hw : w.inSession = true) (running : 0 < s'.sessions u) : Entered u s' := by
  refine ⟨running, ?_⟩
  cases hs with
  | @acquire t unit session idle =>
    rcases s.acquire_cases t unit session with ⟨-, hp, -, he⟩ | ⟨-, he⟩ | ⟨-, r, hr, next⟩
    · rw [he]
      intro _ v hv
      have := pending_setTask_subset (by simp) v hv
      simp [SessionLock.pending] at this hp
      exact absurd this.2 (hp v this.1)
    · simp [he] at hg
    · subst hr
      rcases next with he | ⟨-, he⟩
      · rw [he] at hg ⊢
        exact noTurn_of_wake hg hw u
      · rw [he] at hg ⊢
        intro hu v hv
        exact noTurn_of_wake hg hw u (leave_turns_subset hu) v
          (pending_leave_subset v (pending_setTask_subset (by simp) v hv))
  | wake => exact noTurn_of_wake hg hw u
  | _ => simp at hg

/-- Once a request of a running session of a unit has been granted the bus, no other request
of the unit is granted the bus before the end of the session. -/
theorem session_exclusive {s₁ s₂ s₃ s₄ : SessionLock}
    {before mid : List (Event × Option Waiter)} {e e' : Event} {r n : Waiter}
    (start : Transition.Run UnitStep init before s₁)
    (granted : s₁.UnitStep (e, some r) s₂) (_ofUnit : r.unit = some u) (session : r.inSession = true)
    (running : 0 < s₂.sessions u)
    (run : Transition.Run UnitStep s₂ mid s₃)
    (next : s₃.UnitStep (e', some n) s₄) (hn : n.OtherOf u) :
    ∃ l ∈ mid, l.1 = .endSession u := by
  by_contra none
  have outside : ∀ l ∈ mid, l.1 ≠ .endSession u := fun l hl he => none ⟨l, hl, he⟩
  have reach : s₁.Reachable := ⟨init, before, rfl, start.mono fun _ _ _ h => h.2⟩
  have base : s₂.Reachable ∧ Entered u s₂ :=
    ⟨reach.next granted.2, entered_of_grant granted.2 rfl session running⟩
  have kept : s₃.Reachable ∧ Entered u s₃ := by
    refine run.invariant_of_labels (I := fun s => s.Reachable ∧ Entered u s) ?_ outside base
    rintro s l s' hl ⟨hr, he⟩ hs
    exact ⟨hr.next hs.2, (he.step hr.inv hr.turnsQueued hs hl).1⟩
  obtain ⟨reach₃, entered⟩ := kept
  by_cases last : e' = .endSession u
  · subst last
    cases next.2
  · exact (entered.step reach₃.inv reach₃.turnsQueued next last).2 n rfl hn

/-- The scan of unit 1 waits until the change which wrote before it ends its session. -/
theorem session_exclusive_scan :
    ∃ l ∈ ([(.acquire 1 (some 1) none, none), (.release 0, none), (.endSession 1, none)] :
      List (Event × Option Waiter)), l.1 = .endSession 1 := by
  let s₁ := init.beginSession 1
  let s₂ := (s₁.acquire 0 (some 1) (some 1)).1
  let s₃ := (s₂.acquire 1 (some 1) none).1
  let s₄ := { s₃ with locked := false }.scheduleWake.setTask 0 .outside
  have start : Transition.Run UnitStep init [(.beginSession 1, none)] s₁ :=
    .single ⟨rfl, .beginSession 1⟩
  have granted : s₁.UnitStep (.acquire 0 (some 1) (some 1), some ⟨0, some 1, true⟩) s₂ :=
    ⟨(by intro u _ w hw; cases hw), .acquire (some 1) (some 1) rfl⟩
  have waits : s₂.UnitStep (.acquire 1 (some 1) none, none) s₃ :=
    ⟨(by intro u _ w hw; cases hw), .acquire (some 1) none rfl⟩
  have freed : s₃.UnitStep (.release 0, none) s₄ := ⟨trivial, .release rfl rfl⟩
  have ended : s₄.UnitStep (.endSession 1, none) (s₄.endSession 1) :=
    ⟨trivial, .endSession (by decide)⟩
  have woken : (s₄.endSession 1).runWake.2 = some ⟨1, some 1, false⟩ := by decide +kernel
  have scanned : (s₄.endSession 1).UnitStep (.wake, some ⟨1, some 1, false⟩)
      (s₄.endSession 1).runWake.1 := ⟨trivial, woken ▸ .wake (by decide)⟩
  exact session_exclusive start granted rfl rfl (by decide)
    (.cons waits (.cons freed (.single ended))) scanned ⟨rfl, rfl⟩

end SessionLock

end Evok.Bus
