import Mathlib.Data.Finset.Card
import Evok.Bus.Exclusive

/-!
# Bounded overtaking on a bus

After a session of a unit its first waiting other request has a turn and goes before the
requests of all sessions. An other request of another unit may be passed only by the requests
queued before it. While no session ends, the turns bound how many other requests pass a waiting
request of a session.

## Main definitions

* `SessionLock.Precedes` : a pending request was queued before another one.
* `Unserved` : a request is neither granted nor cancelled by a step.
* `SessionLock.Kept` : a request waits, and only what was queued before it is before it.

## Main results

* `SessionLock.Kept.step` : a request keeps its place until it is granted or cancelled.
* `SessionLock.bounded_overtaking` : the three bounds.
-/

namespace Evok.Bus

/-- The request is neither granted the bus nor cancelled. -/
def Unserved (w : Waiter) (l : SessionLock.Event × Option Waiter) : Prop :=
  l.1 ≠ .cancel w.task ∧ l.2 ≠ some w

namespace SessionLock

variable {s s' a b : SessionLock} {t u v : Nat} {w r q : Waiter} {x : TaskState}

/-- The pending request `w` was queued before `r`. -/
def Precedes (s : SessionLock) (w r : Waiter) : Prop := [w, r].Sublist s.pending

/-! ## The order of the choice -/

theorem precedes_of_find {l : List Waiter} {p : Waiter → Bool} (h : l.find? p = some w)
    (hr : r ∈ l) (hp : p r = true) : w = r ∨ [w, r].Sublist l := by
  obtain ⟨-, as, bs, rfl, failed⟩ := List.find?_eq_some_iff_append.mp h
  rcases List.mem_append.mp hr with ha | hb
  · have := failed r ha
    simp [hp] at this
  · rcases List.mem_cons.mp hb with rfl | hb
    · exact .inl rfl
    · refine .inr (List.Sublist.trans ?_ (List.sublist_append_right as _))
      exact (List.singleton_sublist.mpr hb).cons_cons w

/-- While an other request has a turn, the first one with a turn is chosen. -/
theorem choose_turn (h : s.choose = some w) (hr : r ∈ s.pending) (other : r.inSession = false)
    (turn : s.hasTurn r.unit = true) :
    w.inSession = false ∧ s.hasTurn w.unit = true ∧ (w = r ∨ s.Precedes w r) := by
  simp only [choose, Option.orElse_eq_orElse, Option.orElse_eq_or, Option.or_eq_some_iff] at h
  rcases h with h | ⟨h, -⟩
  · have chosen := List.find?_some h
    refine ⟨by simp_all, by simp_all, precedes_of_find h hr (by simp [other, turn])⟩
  · have := List.find?_eq_none.mp h r hr
    simp [other, turn] at this

/-- While the first other request goes first, a request of a session is chosen only before the
requests which are not blocked. -/
theorem choose_otherTurn (h : s.choose = some w) (session : w.inSession = true)
    (first : s.otherTurn = true) (hr : r ∈ s.pending) (other : r.inSession = false)
    (free : s.blocked r.unit r.inSession = false) : s.Precedes w r := by
  simp only [choose, Option.orElse_eq_orElse, Option.orElse_eq_or, Option.or_eq_some_iff,
    first, if_true] at h
  rcases h with h | ⟨-, h | ⟨h, -⟩⟩
  · have := List.find?_some h
    simp [session] at this
  · refine (precedes_of_find h hr (by simp [free])).resolve_left ?_
    rintro rfl
    simp [session] at other
  · have := List.find?_eq_none.mp h r hr
    simp [free] at this

/-- An other request which passes a waiting request of a session uses up a turn. -/
theorem choose_other (h : s.choose = some w) (other : w.inSession = false) (hq : q ∈ s.pending)
    (session : q.inSession = true) : s.hasTurn w.unit = true ∨ s.otherTurn = true := by
  simp only [choose, Option.orElse_eq_orElse, Option.orElse_eq_or, Option.or_eq_some_iff] at h
  rcases h with h | ⟨-, h | ⟨-, h | ⟨h, -⟩⟩⟩
  · have := List.find?_some h
    exact .inl (by simp_all)
  · split at h
    · next first => exact .inr first
    · cases h
  · have : w.inSession = true := List.find?_some (p := Waiter.inSession) h
    simp [this] at other
  · have := List.find?_eq_none.mp h q hq
    simp [session] at this

/-! ## The queue grows only at its end -/

theorem pending_setTask_sublist (hx : x ≠ .waiting .pending) :
    (s.setTask t x).pending.Sublist s.pending := by
  refine List.monotone_filter_right _ fun w hw => ?_
  by_cases hwt : w.task = t
  · simp [hwt, hx] at hw
  · simpa [Function.update_of_ne hwt] using hw

theorem pending_leave_sublist : (s.leave t).pending.Sublist s.pending :=
  List.filter_sublist.filter _

theorem pending_handOver_sublist : (s.handOver w).pending.Sublist s.pending := by
  refine (List.erase_sublist.filter _).trans (List.monotone_filter_right _ fun z hz => ?_)
  by_cases hzw : z.task = w.task
  · simp [hzw] at hz
  · simpa [Function.update_of_ne hzw] using hz

theorem pending_enqueue (idle : ∀ v ∈ s.waiters, v.task ≠ w.task) :
    (s.enqueue w).pending = s.pending ++ [w] := by
  simp only [pending, enqueue_waiters, List.filter_append, enqueue_tasks]
  congr 1
  · refine List.filter_congr fun v hv => ?_
    simp [Function.update_of_ne (idle v hv)]
  · simp

@[simp] theorem pending_scheduleWake : s.scheduleWake.pending = s.pending := by
  simp [pending]

/-- A move removes pending requests, or appends one of a task which did not wait. -/
theorem pending_move {l : Event × Option Waiter} (inv : s.Inv) (hm : Move s l a b) :
    b.pending.Sublist a.pending ∨
      ∃ w, b.pending = a.pending ++ [w] ∧ a.tasks w.task = .outside := by
  cases hm with
  | take => exact .inl (pending_setTask_sublist (s := { s with locked := true }) (by simp))
  | @enqueue t unit session _ idle =>
    exact .inr ⟨_, pending_enqueue (inv.queue.notMem_task idle), idle⟩
  | handOver => exact .inl pending_handOver_sublist
  | leave _ hx => exact .inl ((pending_setTask_sublist hx).trans pending_leave_sublist)
  | stop hx => exact .inl (pending_setTask_sublist hx)
  | free => exact .inl (by rw [pending_scheduleWake]; exact .refl _)
  | beginSession => exact .inl (.refl _)
  | endSession => exact .inl (by rw [endSession, pending_scheduleWake]; exact .refl _)
  | unschedule => exact .inl (.refl _)

theorem precedes_of_append {l : List Waiter} (h : [w, r].Sublist (l ++ [q])) (ne : r ≠ q) :
    [w, r].Sublist l := by
  obtain ⟨as, bs, hab, ha, hb⟩ := List.sublist_append_iff.mp h
  cases bs with
  | nil => simpa [hab] using ha
  | cons z bs =>
    obtain ⟨rfl, rfl⟩ : z = q ∧ bs = [] := by
      have := hb.length_le
      have hz := hb.subset List.mem_cons_self
      simp_all
    have last := congrArg List.getLast? hab
    simp only [List.getLast?_append, List.getLast?_singleton] at last
    exact absurd (by simpa using last) ne

/-- No move puts a request before a pending one. -/
theorem precedes_move {l : Event × Option Waiter} (inv : s.Inv) (hm : Move s l a b)
    (hr : r ∈ a.pending) (h : b.Precedes w r) : a.Precedes w r := by
  rcases pending_move inv hm with sub | ⟨q, hq, idle⟩
  · exact h.trans sub
  · rw [Precedes, hq] at h
    refine precedes_of_append h ?_
    rintro rfl
    simp [(mem_pending.mp hr).2] at idle

/-! ## A request keeps its place until it is granted or cancelled -/

theorem mem_pending_setTask (h : r ∈ s.pending) (ht : r.task ≠ t) :
    r ∈ (s.setTask t x).pending := by
  simpa [Function.update_of_ne ht] using h

theorem mem_pending_leave (h : r ∈ s.pending) (ht : r.task ≠ t) : r ∈ (s.leave t).pending := by
  simpa [ht] using h

theorem mem_pending_handOver (nodup : (s.waiters.map (·.task)).Nodup) (hw : w ∈ s.waiters)
    (h : r ∈ s.pending) (ne : r ≠ w) : r ∈ (s.handOver w).pending := by
  obtain ⟨hm, hp⟩ := mem_pending.mp h
  have task : r.task ≠ w.task := fun e => ne (List.inj_on_of_nodup_map nodup hm hw e)
  exact mem_pending.mpr ⟨(List.mem_erase_of_ne ne).mpr hm,
    by simpa [Function.update_of_ne task] using hp⟩

/-- The request `r` waits in `s`, and what precedes it preceded it in `s₀`. -/
structure Kept (s₀ : SessionLock) (r : Waiter) (s : SessionLock) : Prop where
  nodup : (s.waiters.map (·.task)).Nodup
  pending : r ∈ s.pending
  before : ∀ w, s.Precedes w r → s₀.Precedes w r

namespace Kept

theorem refl (inv : s.Inv) (h : r ∈ s.pending) : Kept s r s :=
  ⟨inv.queue.nodup, h, fun _ hw => hw⟩

theorem move {s₀ : SessionLock} {l : Event × Option Waiter} (h : Kept s₀ r a) (inv : s.Inv)
    (unserved : Unserved r l) (hm : Move s l a b) : Kept s₀ r b := by
  have ne : ∀ {t}, a.tasks t ≠ .waiting .pending → r.task ≠ t := by
    rintro t ht rfl
    exact ht (mem_pending.mp h.pending).2
  have before : ∀ w, b.Precedes w r → s₀.Precedes w r :=
    fun w hw => h.before w (precedes_move inv hm h.pending hw)
  suffices (b.waiters.map (·.task)).Nodup ∧ r ∈ b.pending from ⟨this.1, this.2, before⟩
  cases hm with
  | take _ empty =>
    have := h.pending
    simp [empty] at this
  | @enqueue t unit session _ idle =>
    refine ⟨(inv.queue.enqueue idle).nodup, ?_⟩
    rw [pending_enqueue (inv.queue.notMem_task idle)]
    exact List.mem_append_left _ h.pending
  | @handOver _ w grant chosen =>
    have hw := (mem_pending.mp (mem_pending_of_choose chosen)).1
    have ne : r ≠ w := fun e => unserved.2 (e ▸ grant)
    exact ⟨h.nodup.sublist (List.erase_sublist.map _), mem_pending_handOver h.nodup hw h.pending ne⟩
  | leave done hx =>
    refine ⟨h.nodup.sublist (List.filter_sublist.map _), ?_⟩
    exact mem_pending_setTask (mem_pending_leave h.pending (ne done)) (ne done)
  | @stop _ t _ hx event =>
    refine ⟨h.nodup, mem_pending_setTask h.pending ?_⟩
    rintro rfl
    exact unserved.1 (event (mem_pending.mp h.pending).2)
  | free => exact ⟨by simpa using h.nodup, by rw [pending_scheduleWake]; exact h.pending⟩
  | beginSession => exact ⟨h.nodup, h.pending⟩
  | endSession =>
    exact ⟨by simpa [endSession] using h.nodup,
      by rw [endSession, pending_scheduleWake]; exact h.pending⟩
  | unschedule => exact ⟨h.nodup, h.pending⟩

theorem step {s₀ : SessionLock} {l : Event × Option Waiter} (h : Kept s₀ r s) (inv : s.Inv)
    (hs : Step s l s') (unserved : Unserved r l) : Kept s₀ r s' :=
  hs.preserves h fun _ _ hm ha => ha.move inv unserved hm

end Kept

/-- Another request than `r` was granted, so `r` is still unserved. -/
theorem unserved_of_granted {e : Event} (hs : Step s (e, some q) s') (ne : q ≠ r) :
    Unserved r (e, some q) := by
  refine ⟨?_, fun h => ne (Option.some.inj h)⟩
  rintro rfl
  cases hs

/-! ## The turn of a unit -/

/-- The other request `r` waits and its unit `v` has a turn. -/
structure OnTurn (s₀ : SessionLock) (v : Nat) (r : Waiter) (s : SessionLock) : Prop where
  kept : Kept s₀ r s
  turn : v ∈ s.turns

namespace OnTurn

variable {s₀ : SessionLock} {l : Event × Option Waiter}

/-- The chosen request is no request of a session, and no other one of the unit than `r`. -/
theorem chosen (h : OnTurn s₀ v r a) (ofUnit : r.OtherOf v)
    (first : ∀ w, s₀.Precedes w r → ¬ w.OtherOf v) (hc : a.choose = some w) :
    w.inSession = false ∧ (w.unit = some v → w = r) := by
  have turn : a.hasTurn r.unit = true := by simpa [ofUnit.1] using h.turn
  obtain ⟨other, -, next⟩ := choose_turn hc h.kept.pending ofUnit.2 turn
  exact ⟨other, fun hu => next.resolve_right fun hw => first w (h.kept.before w hw) ⟨hu, other⟩⟩

theorem move (h : OnTurn s₀ v r a) (inv : s.Inv) (ofUnit : r.OtherOf v)
    (first : ∀ w, s₀.Precedes w r → ¬ w.OtherOf v) (unserved : Unserved r l)
    (hm : Move s l a b) : OnTurn s₀ v r b := by
  refine ⟨h.kept.move inv unserved hm, ?_⟩
  cases hm with
  | @handOver _ w grant hc =>
    have ne : w.unit ≠ some v := by
      intro hu
      exact unserved.2 (grant.trans (congrArg some ((h.chosen ofUnit first hc).2 hu)))
    rw [handOver_turns, useTurn]
    split_ifs
    · exact h.turn
    · exact Finset.mem_filter.mpr ⟨h.turn, ne.symm⟩
    · exact h.turn
  | @leave _ t x done hx =>
    have waits := ((h.kept.move inv unserved (.leave done hx))).pending
    have other : some v ∈ ((a.leave t).setTask t x).others :=
      mem_others.mpr ⟨r, waits, ofUnit.2, ofUnit.1⟩
    refine Finset.mem_filter.mpr ⟨h.turn, ?_⟩
    obtain ⟨w, hw, hb, hu⟩ := mem_others.mp other
    exact mem_others.mpr ⟨w, pending_setTask_subset (s := a.leave t) hx w hw, hb, hu⟩
  | endSession =>
    simp only [endSession, scheduleWake_turns]
    split
    · exact Finset.mem_insert_of_mem h.turn
    · exact h.turn
  | free => simpa using h.turn
  | _ => exact h.turn

end OnTurn

/-! ## The turn of the other units -/

/-- The first other request which is not blocked goes first, and `r` is not blocked. -/
structure OtherFirst (s₀ : SessionLock) (r : Waiter) (s : SessionLock) : Prop where
  kept : Kept s₀ r s
  first : s.otherTurn = true
  free : s.hasSession r.unit = false

namespace OtherFirst

variable {s₀ : SessionLock} {l : Event × Option Waiter}

theorem not_blocked (h : OtherFirst s₀ r s) : s.blocked r.unit r.inSession = false := by
  simp [blocked, h.free]

theorem move (h : OtherFirst s₀ r a) (inv : s.Inv) (other : r.inSession = false)
    (unserved : Unserved r l) (sessions : ∀ w, l.2 = some w → w.inSession = true)
    (none : ∀ u, l.1 = .beginSession u → r.unit ≠ some u) (hm : Move s l a b) :
    OtherFirst s₀ r b := by
  have kept := h.kept.move inv unserved hm
  suffices b.otherTurn = true ∧ b.hasSession r.unit = false from ⟨kept, this.1, this.2⟩
  cases hm with
  | @handOver _ w grant hc =>
    refine ⟨?_, by simpa [hasSession] using h.free⟩
    rw [handOver_otherTurn, useTurn, if_pos (sessions w grant)]
    exact h.first
  | @leave _ t x done hx =>
    refine ⟨?_, h.free⟩
    have waits : r ∈ (a.leave t).pending := pending_setTask_subset hx r kept.pending
    have others : (a.leave t).others ≠ [] :=
      List.ne_nil_of_mem (mem_others.mpr ⟨r, waits, other, rfl⟩)
    have first : (a.leave t).otherTurn = (a.otherTurn && !(a.leave t).others.isEmpty) := rfl
    simpa [first, h.first] using others
  | free => exact ⟨by simpa using h.first, by simpa [hasSession] using h.free⟩
  | @beginSession _ u event =>
    refine ⟨h.first, ?_⟩
    have ne := none u event
    have free := h.free
    cases hu : r.unit with
    | none => rfl
    | some v =>
      have hv : v ≠ u := fun e => ne (by rw [hu, e])
      rw [hu] at free
      simpa [beginSession, Function.update_of_ne hv] using free
  | @endSession _ u _ =>
    refine ⟨by simp [endSession, h.first], ?_⟩
    have free := h.free
    cases hu : r.unit with
    | none => rfl
    | some v =>
      rw [hu] at free
      by_cases hv : v = u
      · subst hv
        simp only [hasSession_some, decide_eq_false_iff_not, not_lt, Nat.le_zero] at free
        simp [endSession, free]
      · simpa [endSession, Function.update_of_ne hv] using free
  | _ => exact ⟨h.first, h.free⟩

end OtherFirst

/-! ## The turns are used up -/

/-- The turns which let an other request pass a waiting request of a session. -/
def turnsLeft (s : SessionLock) : Nat := s.turns.card + s.otherTurn.toNat

/-- The step granted the bus to an other request. -/
def grantsOther (l : Event × Option Waiter) : Bool := l.2.any (!·.inSession)

theorem turnsLeft_useTurn_le : (s.useTurn w).turnsLeft ≤ s.turnsLeft := by
  unfold useTurn
  split_ifs
  · exact le_rfl
  · exact Nat.add_le_add_right (Finset.card_le_card (Finset.filter_subset _ _)) _
  · exact Nat.add_le_add_left (by simp) _

/-- An other request with a turn uses it up. -/
theorem turnsLeft_useTurn_lt (other : w.inSession = false)
    (turn : s.hasTurn w.unit = true ∨ s.otherTurn = true) :
    (s.useTurn w).turnsLeft < s.turnsLeft := by
  unfold useTurn
  rw [if_neg (by simp [other])]
  split
  · next ht =>
    obtain ⟨u, hu, hm⟩ : ∃ u, w.unit = some u ∧ u ∈ s.turns := by
      cases hu : w.unit <;> simp_all
    refine Nat.add_lt_add_right (Finset.card_lt_card ?_) _
    refine Finset.filter_ssubset.mpr ⟨u, hm, by simp [hu]⟩
  · next ht =>
    have first := turn.resolve_left ht
    simp [turnsLeft, first]

theorem turnsLeft_leave_le : (s.leave t).turnsLeft ≤ s.turnsLeft := by
  refine Nat.add_le_add (Finset.card_le_card leave_turns_subset) (Bool.toNat_le_toNat ?_)
  exact fun h => (Bool.and_eq_true _ _ ▸ h).1

theorem turnsLeft_move {l : Event × Option Waiter} (hl : ∀ u, l.1 ≠ .endSession u)
    (hm : Move s l a b) : b.turnsLeft ≤ a.turnsLeft := by
  cases hm with
  | handOver => exact turnsLeft_useTurn_le
  | leave => exact turnsLeft_leave_le
  | free => simp [turnsLeft]
  | endSession event => exact absurd event (hl _)
  | _ => exact le_rfl

/-- A request of a session waits. -/
def SessionWaits (s : SessionLock) : Prop := ∃ q ∈ s.pending, q.inSession = true

/-- While a request of a session waits, each granted other request lowers the turns left. -/
theorem turnsLeft_step {l : Event × Option Waiter} (hs : Step s l s') (waits : s'.SessionWaits)
    (hl : ∀ u, l.1 ≠ .endSession u) :
    s'.turnsLeft + (if grantsOther l then 1 else 0) ≤ s.turnsLeft := by
  have lower : ∀ {c}, Relation.ReflTransGen (Move s l) s c → c.turnsLeft ≤ s.turnsLeft :=
    fun moves => moves_preserve (I := fun c => c.turnsLeft ≤ s.turnsLeft) moves le_rfl
      fun _ _ hm ha => (turnsLeft_move hl hm).trans ha
  split
  case isFalse => exact lower hs.moves
  case isTrue granted =>
    obtain ⟨w, hw, other⟩ := (Option.any_eq_true _ _).mp granted
    have other : w.inSession = false := by simpa using other
    obtain ⟨q, hq, session⟩ := waits
    rcases hs.granted hw with ⟨hp, -, -, rfl⟩ | ⟨a, moves, hc, last⟩
    · have := pending_setTask_subset (s := { s with locked := true }) (by simp) q hq
      rw [show ({ s with locked := true } : SessionLock).pending = [] from hp] at this
      cases this
    · have after : s'.turnsLeft ≤ (a.handOver w).turnsLeft ∧ q ∈ (a.handOver w).pending := by
        rcases last with rfl | ⟨t, rfl⟩
        · exact ⟨le_rfl, hq⟩
        · exact ⟨turnsLeft_leave_le, pending_leave_subset q (pending_setTask_subset (by simp) q hq)⟩
      have turn := choose_other hc other (pending_handOver_subset q after.2) session
      have used : (a.handOver w).turnsLeft < a.turnsLeft := turnsLeft_useTurn_lt other turn
      have before := lower moves
      omega

/-! ## The bounds -/

/-- After a session of `v` no request of a session is granted before its first waiting other
request. -/
theorem other_first_of_unit {s₁ s₂ s₃ : SessionLock} {mid : List (Event × Option Waiter)}
    {e : Event} (reach : s.Reachable) (ends : Step s (.endSession v, none) s₁)
    (hr : r ∈ s.pending) (ofUnit : r.OtherOf v) (first : ∀ w, s.Precedes w r → ¬ w.OtherOf v)
    (run : Transition.Run Step s₁ mid s₂) (unserved : ∀ l ∈ mid, Unserved r l)
    (next : Step s₂ (e, some q) s₃) : q.inSession = false := by
  have start : s₁.Reachable ∧ OnTurn s v r s₁ := by
    refine ⟨reach.next ends, (Kept.refl reach.inv hr).step reach.inv ends ⟨by simp, by simp⟩, ?_⟩
    cases ends
    have other : some v ∈ s.others := mem_others.mpr ⟨r, hr, ofUnit.2, ofUnit.1⟩
    simp [endSession, other]
  obtain ⟨reach₂, onTurn⟩ : s₂.Reachable ∧ OnTurn s v r s₂ := by
    refine run.invariant_of_labels (I := fun x => x.Reachable ∧ OnTurn s v r x) ?_ unserved start
    rintro x l y hl ⟨hx, turn⟩ hs
    exact ⟨hx.next hs, hs.preserves turn fun _ _ hm ha => ha.move hx.inv ofUnit first hl hm⟩
  by_cases hq : q = r
  · exact hq ▸ ofUnit.2
  have unservedNext := unserved_of_granted next hq
  rcases next.granted rfl with ⟨hp, -⟩ | ⟨a, moves, hc, -⟩
  · have := onTurn.kept.pending
    simp [hp] at this
  · have turn : OnTurn s v r a := moves_preserve moves onTurn
      fun _ _ hm ha => ha.move reach₂.inv ofUnit first unservedNext hm
    exact (turn.chosen ofUnit first hc).1

/-- After a session of `v`, until an other request is granted, a waiting other request of another
unit without a session is passed only by the requests of sessions queued before it. -/
theorem other_of_units {s₁ s₂ s₃ : SessionLock} {mid : List (Event × Option Waiter)}
    {e : Event} (reach : s.Reachable) (ends : Step s (.endSession v, none) s₁)
    (hr : r ∈ s.pending) (other : r.inSession = false) (unit : r.unit ≠ some v)
    (free : s₁.hasSession r.unit = false) (run : Transition.Run Step s₁ mid s₂)
    (between : ∀ l ∈ mid, Unserved r l ∧ (∀ w, l.2 = some w → w.inSession = true) ∧
      ∀ u, l.1 = .beginSession u → r.unit ≠ some u)
    (next : Step s₂ (e, some q) s₃) (session : q.inSession = true) : s.Precedes q r := by
  have start : s₁.Reachable ∧ OtherFirst s r s₁ := by
    refine ⟨reach.next ends, (Kept.refl reach.inv hr).step reach.inv ends ⟨by simp, by simp⟩, ?_,
      free⟩
    cases ends
    have waits : ∃ x ∈ s.others, ¬ x = some v :=
      ⟨r.unit, mem_others.mpr ⟨r, hr, other, rfl⟩, unit⟩
    simpa [endSession] using Or.inr waits
  obtain ⟨reach₂, first⟩ : s₂.Reachable ∧ OtherFirst s r s₂ := by
    refine run.invariant_of_labels (I := fun x => x.Reachable ∧ OtherFirst s r x) ?_ between start
    rintro x l y ⟨hl, sessions, none⟩ ⟨hx, first⟩ hs
    exact ⟨hx.next hs, hs.preserves first
      fun _ _ hm ha => ha.move hx.inv other hl sessions none hm⟩
  have ne : q ≠ r := by
    rintro rfl
    simp [session] at other
  have unserved := unserved_of_granted next ne
  rcases next.granted rfl with ⟨hp, -⟩ | ⟨a, moves, hc, -⟩
  · have := first.kept.pending
    simp [hp] at this
  · have first : OtherFirst s r a := by
      refine moves_preserve moves first fun _ _ hm ha => ha.move reach₂.inv other unserved ?_ ?_ hm
      · rintro w ⟨⟩
        exact session
      · rintro u rfl
        cases next
    exact first.kept.before q
      (choose_otherTurn hc session first.first first.kept.pending other first.not_blocked)

/-- While a request of a session waits and no session ends, the turns bound how many other
requests are granted. -/
theorem others_bounded {mid : List (Event × Option Waiter)}
    (run : Transition.Run (fun s l s' => Step s l s' ∧ s'.SessionWaits) s mid s')
    (running : ∀ l ∈ mid, ∀ u, l.1 ≠ .endSession u) :
    mid.countP grantsOther ≤ s.turns.card + 1 := by
  have bound := run.count_le_potential (I := fun _ => True) (p := grantsOther)
    (V := turnsLeft) (fun _ _ _ _ _ _ => trivial)
    (fun _ _ _ hl _ hs => turnsLeft_step hs.1 hs.2 hl) running trivial
  have left : s.turnsLeft ≤ s.turns.card + 1 := Nat.add_le_add_left (Bool.toNat_le _) _
  omega

/-- Bounded overtaking on a bus, in both directions: a waiting other request is not passed by an
endless stream of sessions, and a waiting request of a session only by the turns. -/
theorem bounded_overtaking :
    (∀ {s s₁ s₂ s₃ : SessionLock} {v : Nat} {r q : Waiter} {mid : List (Event × Option Waiter)}
      {e : Event}, s.Reachable → Step s (.endSession v, none) s₁ → r ∈ s.pending →
      r.OtherOf v → (∀ w, s.Precedes w r → ¬ w.OtherOf v) → Transition.Run Step s₁ mid s₂ →
      (∀ l ∈ mid, Unserved r l) → Step s₂ (e, some q) s₃ → q.inSession = false) ∧
    (∀ {s s₁ s₂ s₃ : SessionLock} {v : Nat} {r q : Waiter} {mid : List (Event × Option Waiter)}
      {e : Event}, s.Reachable → Step s (.endSession v, none) s₁ → r ∈ s.pending →
      r.inSession = false → r.unit ≠ some v → s₁.hasSession r.unit = false →
      Transition.Run Step s₁ mid s₂ →
      (∀ l ∈ mid, Unserved r l ∧ (∀ w, l.2 = some w → w.inSession = true) ∧
        ∀ u, l.1 = .beginSession u → r.unit ≠ some u) →
      Step s₂ (e, some q) s₃ → q.inSession = true → s.Precedes q r) ∧
    (∀ {s s' : SessionLock} {mid : List (Event × Option Waiter)}, s.Reachable →
      Transition.Run (fun s l s' => Step s l s' ∧ s'.SessionWaits) s mid s' →
      (∀ l ∈ mid, ∀ u, l.1 ≠ .endSession u) → mid.countP grantsOther ≤ s.turns.card + 1) :=
  ⟨other_first_of_unit, other_of_units, fun _ => others_bounded⟩

/-- A request of unit 1 holds the bus in its session, a request of the session of unit 3 and the
scan of unit 2 wait. -/
def busyBus : SessionLock :=
  let s := ((init.beginSession 1).acquire 0 (some 1) (some 1)).1
  let s := ((s.beginSession 3).acquire 4 (some 3) (some 3)).1
  (s.acquire 2 (some 2) none).1

theorem reachable_busyBus : busyBus.Reachable := by
  have run : Transition.Run Step init [(.beginSession 1, none),
      (.acquire 0 (some 1) (some 1), some ⟨0, some 1, true⟩), (.beginSession 3, none),
      (.acquire 4 (some 3) (some 3), none), (.acquire 2 (some 2) none, none)] busyBus :=
    .cons (.beginSession 1) <| .cons (.acquire (some 1) (some 1) rfl) <|
      .cons (.beginSession 3) <| .cons (.acquire (some 3) (some 3) rfl) <|
      .single (.acquire (some 2) none rfl)
  exact .trans (.of_init rfl) run

/-- The session of unit 1 ends and its request frees the bus: the scan of unit 1 goes first, or
without it the request of unit 3, which was queued before the scan of unit 2. -/
theorem bounded_overtaking_busyBus :
    (⟨1, some 1, false⟩ : Waiter).inSession = false ∧
    busyBus.Precedes ⟨4, some 3, true⟩ ⟨2, some 2, false⟩ ∧
    ([(.release 0, none), (.wake, some ⟨1, some 1, false⟩)] :
      List (Event × Option Waiter)).countP grantsOther ≤
        ((busyBus.acquire 1 (some 1) none).1.endSession 1).turns.card + 1 := by
  let s := (busyBus.acquire 1 (some 1) none).1
  let freed (s : SessionLock) := { s with locked := false }.scheduleWake.setTask 0 .outside
  have reach : s.Reachable := reachable_busyBus.next (.acquire (some 1) none rfl)
  have ends : Step s (.endSession 1, none) (s.endSession 1) := .endSession (by decide)
  have releases : Step (s.endSession 1) (.release 0, none) (freed (s.endSession 1)) :=
    .release rfl rfl
  have wakes : Step (freed (s.endSession 1)) (.wake, some ⟨1, some 1, false⟩)
      (freed (s.endSession 1)).runWake.1 := .wake (by decide)
  obtain ⟨ofUnit, ofUnits, bounded⟩ := bounded_overtaking
  refine ⟨?_, ?_, ?_⟩
  · refine ofUnit (r := ⟨1, some 1, false⟩) reach ends (by decide) ⟨rfl, rfl⟩ ?_
      (.single releases) (by simp [Unserved]) wakes
    intro w hw
    rw [Precedes, show s.pending = [⟨4, some 3, true⟩, ⟨2, some 2, false⟩, ⟨1, some 1, false⟩] by
      decide] at hw
    have hm := hw.subset List.mem_cons_self
    simp only [List.mem_cons, List.not_mem_nil, or_false] at hm
    rcases hm with rfl | rfl | rfl
    · simp [Waiter.OtherOf]
    · simp [Waiter.OtherOf]
    · exact absurd hw (by decide)
  · have next : Step (freed (busyBus.endSession 1)) (.wake, some ⟨4, some 3, true⟩)
        (freed (busyBus.endSession 1)).runWake.1 := .wake (by decide)
    exact ofUnits (s := busyBus) (v := 1) reachable_busyBus (.endSession (by decide)) (by decide)
      rfl (by decide) (by decide) (.single (.release rfl rfl)) (by simp [Unserved]) next rfl
  · refine bounded (reach.next ends) (.cons ⟨releases, ?_⟩ (.single ⟨wakes, ?_⟩)) (by simp)
    · exact ⟨⟨4, some 3, true⟩, by decide, rfl⟩
    · exact ⟨⟨4, some 3, true⟩, by decide, rfl⟩

end SessionLock

end Evok.Bus
