import Mathlib.Data.List.Nodup
import Evok.Bus.SessionLock

/-!
# Mutual exclusion and wake-ups of the bus lock

The queue has exactly the tasks which wait, the lock has at most one owner, and a lock which
is free is about to be woken or has only blocked waiters.

## Main results

* `SessionLock.Inv` : the invariant of a bus, kept by every step (`Inv.step`).
* `SessionLock.handover_safe` : mutual exclusion and no lost wake-up in every reachable state.
-/

namespace Evok.Bus

/-- The task holds the lock or was handed it. -/
def TaskState.owns : TaskState → Bool
  | .holding | .waiting .handed | .waiting .handedCancelled => true
  | _ => false

namespace SessionLock

variable {s s' : SessionLock} {t u : Nat} {w : Waiter} {x : TaskState}

/-! ## The fields after an operation -/

@[simp] theorem setTask_waiters : (s.setTask t x).waiters = s.waiters := rfl
@[simp] theorem setTask_locked : (s.setTask t x).locked = s.locked := rfl
@[simp] theorem setTask_wakes : (s.setTask t x).wakes = s.wakes := rfl
@[simp] theorem setTask_turns : (s.setTask t x).turns = s.turns := rfl
@[simp] theorem setTask_sessions : (s.setTask t x).sessions = s.sessions := rfl
@[simp] theorem setTask_otherTurn : (s.setTask t x).otherTurn = s.otherTurn := rfl
@[simp] theorem setTask_tasks : (s.setTask t x).tasks = Function.update s.tasks t x := rfl

@[simp] theorem enqueue_waiters : (s.enqueue w).waiters = s.waiters ++ [w] := rfl
@[simp] theorem enqueue_locked : (s.enqueue w).locked = s.locked := rfl
@[simp] theorem enqueue_turns : (s.enqueue w).turns = s.turns := rfl
@[simp] theorem enqueue_sessions : (s.enqueue w).sessions = s.sessions := rfl
@[simp] theorem enqueue_otherTurn : (s.enqueue w).otherTurn = s.otherTurn := rfl
@[simp] theorem enqueue_tasks :
    (s.enqueue w).tasks = Function.update s.tasks w.task (.waiting .pending) := rfl

@[simp] theorem useTurn_waiters : (s.useTurn w).waiters = s.waiters := by
  unfold useTurn; split_ifs <;> rfl
@[simp] theorem useTurn_wakes : (s.useTurn w).wakes = s.wakes := by
  unfold useTurn; split_ifs <;> rfl
@[simp] theorem useTurn_sessions : (s.useTurn w).sessions = s.sessions := by
  unfold useTurn; split_ifs <;> rfl

@[simp] theorem handOver_waiters : (s.handOver w).waiters = s.waiters.erase w := rfl
@[simp] theorem handOver_locked : (s.handOver w).locked = true := rfl
@[simp] theorem handOver_sessions : (s.handOver w).sessions = s.sessions := useTurn_sessions
@[simp] theorem handOver_turns : (s.handOver w).turns = (s.useTurn w).turns := rfl
@[simp] theorem handOver_otherTurn : (s.handOver w).otherTurn = (s.useTurn w).otherTurn := rfl
@[simp] theorem handOver_tasks :
    (s.handOver w).tasks = Function.update s.tasks w.task (.waiting .handed) := rfl

@[simp] theorem leave_waiters : (s.leave t).waiters = s.waiters.filter (·.task ≠ t) := rfl
@[simp] theorem leave_locked : (s.leave t).locked = s.locked := rfl
@[simp] theorem leave_tasks : (s.leave t).tasks = s.tasks := rfl
@[simp] theorem leave_sessions : (s.leave t).sessions = s.sessions := rfl
@[simp] theorem leave_wakes : (s.leave t).wakes = s.wakes := rfl

@[simp] theorem scheduleWake_waiters : s.scheduleWake.waiters = s.waiters := by
  unfold scheduleWake; split_ifs <;> rfl
@[simp] theorem scheduleWake_locked : s.scheduleWake.locked = s.locked := by
  unfold scheduleWake; split_ifs <;> rfl
@[simp] theorem scheduleWake_tasks : s.scheduleWake.tasks = s.tasks := by
  unfold scheduleWake; split_ifs <;> rfl
@[simp] theorem scheduleWake_sessions : s.scheduleWake.sessions = s.sessions := by
  unfold scheduleWake; split_ifs <;> rfl
@[simp] theorem scheduleWake_turns : s.scheduleWake.turns = s.turns := by
  unfold scheduleWake; split_ifs <;> rfl
@[simp] theorem scheduleWake_otherTurn : s.scheduleWake.otherTurn = s.otherTurn := by
  unfold scheduleWake; split_ifs <;> rfl

@[simp] theorem mem_pending :
    w ∈ s.pending ↔ w ∈ s.waiters ∧ s.tasks w.task = .waiting .pending := by
  simp [pending]

theorem mem_others {unit : Option Nat} :
    unit ∈ s.others ↔ ∃ w ∈ s.pending, w.inSession = false ∧ w.unit = unit := by
  simp [others, and_assoc]

@[simp] theorem hasTurn_some : s.hasTurn (some u) = decide (u ∈ s.turns) := rfl
@[simp] theorem hasTurn_none : s.hasTurn none = false := rfl
@[simp] theorem hasSession_some : s.hasSession (some u) = decide (0 < s.sessions u) := rfl
@[simp] theorem hasSession_none : s.hasSession none = false := rfl

/-- A waiter is blocked if it is an other request of a unit with a session and no turn. -/
theorem blocked_iff :
    s.blocked w.unit w.inSession = true ↔
      w.inSession = false ∧ ∃ u, w.unit = some u ∧ 0 < s.sessions u ∧ u ∉ s.turns := by
  cases hu : w.unit <;> simp [blocked, and_assoc]

/-! ## The next owner -/

theorem mem_pending_of_choose (h : s.choose = some w) : w ∈ s.pending := by
  simp only [choose, Option.orElse_eq_orElse, Option.orElse_eq_or, Option.or_eq_some_iff] at h
  rcases h with h | ⟨-, h | ⟨-, h | ⟨-, h⟩⟩⟩
  · exact List.mem_of_find?_eq_some h
  · split at h
    · exact List.mem_of_find?_eq_some h
    · cases h
  · exact List.mem_of_find?_eq_some h
  · exact List.mem_of_find?_eq_some h

theorem blocked_of_choose_none (h : s.choose = none) :
    ∀ w ∈ s.pending, s.blocked w.unit w.inSession = true := by
  intro w hw
  simp only [choose, Option.orElse_eq_orElse, Option.orElse_eq_or, Option.or_eq_none_iff] at h
  simpa using List.find?_eq_none.mp h.2.2.2 w hw

/-- `_wake` does nothing, or it hands a free lock to the chosen waiter. -/
theorem wake_cases (s : SessionLock) :
    (s.wake = (s, none) ∧
      (s.locked = true ∨ ∀ w ∈ s.pending, s.blocked w.unit w.inSession = true)) ∨
    ∃ w, s.locked = false ∧ s.choose = some w ∧ s.wake = (s.handOver w, some w) := by
  unfold wake
  by_cases hl : s.locked = true
  · exact .inl ⟨by simp [hl], .inl hl⟩
  by_cases hp : s.pending = []
  · exact .inl ⟨by simp [hp], .inr (by simp [hp])⟩
  have guard : (s.locked || s.pending.isEmpty) = false := by simp [hl, hp]
  rw [if_neg (by simp [guard])]
  cases hc : s.choose with
  | none => exact .inl ⟨rfl, .inr (blocked_of_choose_none hc)⟩
  | some w => exact .inr ⟨w, by simpa using hl, rfl, rfl⟩

@[simp] theorem request_task (unit session : Option Nat) :
    (s.request t unit session).task = t := rfl
@[simp] theorem request_unit (unit session : Option Nat) :
    (s.request t unit session).unit = unit := rfl

/-- `acquire()` takes a free lock, waits for a locked one, or queues its request and lets
`_wake` choose; the chosen request may be its own. -/
theorem acquire_cases (s : SessionLock) (t : Nat) (unit session : Option Nat) :
    (s.locked = false ∧ s.pending = [] ∧
      s.blocked unit (s.request t unit session).inSession = false ∧
      s.acquire t unit session =
        ({ s with locked := true }.setTask t .holding, some (s.request t unit session))) ∨
    (s.locked = true ∧ s.acquire t unit session = (s.enqueue (s.request t unit session), none)) ∨
    (s.locked = false ∧ ∃ r, (s.enqueue (s.request t unit session)).wake = r ∧
      (s.acquire t unit session = r ∨ r.1.tasks t = .waiting .handed ∧
        s.acquire t unit session = ((r.1.leave t).setTask t .holding, r.2))) := by
  unfold acquire
  extract_lets waiter queued
  split
  case isTrue free =>
    simp only [Bool.and_eq_true, Bool.not_eq_true', List.isEmpty_iff] at free
    exact .inl ⟨free.1.1, free.1.2, free.2, rfl⟩
  case isFalse =>
    by_cases hl : s.locked = true
    · refine .inr (.inl ⟨hl, ?_⟩)
      simp [hl, queued, waiter]
    · refine .inr (.inr ⟨by simpa using hl, _, rfl, ?_⟩)
      simp only [hl]
      by_cases handed : queued.wake.1.tasks t = .waiting .handed
      · exact .inr ⟨handed, by simp [handed, queued, waiter]⟩
      · exact .inl (by simp [handed, queued, waiter])

/-! ## The queue -/

/-- The queue has every waiting task once, and only tasks which wait. -/
structure Queue (s : SessionLock) : Prop where
  nodup : (s.waiters.map (·.task)).Nodup
  queued : ∀ w ∈ s.waiters, s.tasks w.task = .waiting .pending ∨ s.tasks w.task = .waiting .cancelled
  waiting : ∀ t, s.tasks t = .waiting .pending → ∃ w ∈ s.waiters, w.task = t

namespace Queue

theorem notMem_task (h : s.Queue) (ht : s.tasks t = .outside) : ∀ w ∈ s.waiters, w.task ≠ t := by
  rintro w hw rfl
  rcases h.queued w hw with hq | hq <;> simp [ht] at hq

/-- The queue and the tasks determine whether the queue is well formed. -/
theorem congr (h : s.Queue) (hw : s'.waiters = s.waiters) (ht : s'.tasks = s.tasks) :
    s'.Queue :=
  ⟨hw ▸ h.nodup, hw ▸ ht ▸ h.queued, hw ▸ ht ▸ h.waiting⟩

theorem enqueue (h : s.Queue) (ht : s.tasks w.task = .outside) : (s.enqueue w).Queue where
  nodup := by
    have new : w.task ∉ s.waiters.map (·.task) := by
      simpa using fun v hv => h.notMem_task ht v hv
    rw [enqueue_waiters, List.map_append]
    refine List.nodup_append.mpr ⟨h.nodup, by simp, ?_⟩
    rintro a ha b hb rfl
    rw [List.map_cons, List.map_nil, List.mem_singleton] at hb
    exact new (hb ▸ ha)
  queued := by
    intro v hv
    rcases List.mem_append.mp hv with hv | hv
    · simpa [Function.update_of_ne (h.notMem_task ht v hv)] using h.queued v hv
    · simp [List.mem_singleton.mp hv]
  waiting := by
    intro v hv
    by_cases hvt : v = w.task
    · exact ⟨w, by simp, hvt.symm⟩
    · obtain ⟨x, hx, hxv⟩ := h.waiting v (by simpa [Function.update_of_ne hvt] using hv)
      exact ⟨x, List.mem_append_left _ hx, hxv⟩

/-- The waiter of a task leaves the queue when the task stops waiting. -/
theorem remove (h : s.Queue) (hx : x ≠ .waiting .pending) {l : List Waiter}
    (sub : l.Sublist s.waiters) (rest : ∀ w ∈ s.waiters, w.task ≠ t → w ∈ l)
    (gone : ∀ w ∈ l, w.task ≠ t)
    (hw : s'.waiters = l) (ht : s'.tasks = Function.update s.tasks t x) : s'.Queue where
  nodup := hw ▸ h.nodup.sublist (sub.map _)
  queued := by
    intro w hm
    rw [hw] at hm
    simpa [ht, Function.update_of_ne (gone w hm)] using h.queued w (sub.subset hm)
  waiting := by
    intro v hv
    by_cases hvt : v = t
    · simp [ht, hvt, hx] at hv
    · obtain ⟨w, hm, rfl⟩ := h.waiting v (by simpa [ht, Function.update_of_ne hvt] using hv)
      exact ⟨w, hw ▸ rest w hm hvt, rfl⟩

theorem leave (h : s.Queue) (hx : x ≠ .waiting .pending) : ((s.leave t).setTask t x).Queue :=
  h.remove hx List.filter_sublist (by simp +contextual) (by simp) rfl rfl

theorem handOver (h : s.Queue) (hw : w ∈ s.waiters) : (s.handOver w).Queue := by
  have inj : ∀ v ∈ s.waiters, v.task = w.task → v = w :=
    fun v hv => List.inj_on_of_nodup_map h.nodup hv hw
  have nodup : s.waiters.Nodup := List.Nodup.of_map _ h.nodup
  refine h.remove (t := w.task) (x := .waiting .handed) (by simp) List.erase_sublist ?_ ?_ rfl rfl
  · intro v hv hne
    exact (List.mem_erase_of_ne (fun e => hne (congrArg Waiter.task e))).mpr hv
  · intro v hv htask
    obtain ⟨hne, hv⟩ := nodup.mem_erase_iff.mp hv
    exact hne (inj v hv htask)

theorem wake (h : s.Queue) : s.wake.1.Queue := by
  rcases s.wake_cases with ⟨hs, -⟩ | ⟨w, -, hc, hs⟩
  · simpa [hs] using h
  · simpa [hs] using h.handOver (mem_pending.mp (mem_pending_of_choose hc)).1

theorem cancel (h : s.Queue) (hc : s.cancel t = some s') : s'.Queue := by
  unfold SessionLock.cancel at hc
  split at hc <;> cases hc
  case h_1 ht =>
    refine ⟨h.nodup, fun w hw => ?_, fun v hv => ?_⟩
    · by_cases hwt : w.task = t
      · simp [hwt]
      · simpa [Function.update_of_ne hwt] using h.queued w hw
    · by_cases hvt : v = t
      · simp [hvt] at hv
      · exact h.waiting v (by simpa [Function.update_of_ne hvt] using hv)
  case h_2 ht =>
    have gone : ∀ w ∈ s.waiters, w.task ≠ t := by
      rintro w hw rfl
      rcases h.queued w hw with hq | hq <;> simp [ht] at hq
    exact h.remove (by simp) (List.Sublist.refl _) (fun w hw _ => hw) gone rfl rfl
  case h_3 => exact h

end Queue

/-! ## The owner -/

/-- The lock is locked exactly while a task owns it, which is then the only one. -/
structure Owned (s : SessionLock) : Prop where
  unique : ∀ t u, (s.tasks t).owns = true → (s.tasks u).owns = true → t = u
  locked : s.locked = true ↔ ∃ t, (s.tasks t).owns = true

namespace Owned

theorem congr (h : s.Owned) (hl : s'.locked = s.locked) (ht : s'.tasks = s.tasks) : s'.Owned :=
  ⟨ht ▸ h.unique, by rw [hl, ht]; exact h.locked⟩

theorem free (h : s.Owned) (hl : s.locked = false) (t : Nat) : (s.tasks t).owns = false := by
  by_contra ho
  have : s.locked = true := h.locked.mpr ⟨t, by simpa using ho⟩
  simp [hl] at this

/-- A task of a free lock becomes its owner. -/
theorem take (h : s.Owned) (hl : s.locked = false) (hx : x.owns = true)
    (hl' : s'.locked = true) (ht : s'.tasks = Function.update s.tasks t x) : s'.Owned := by
  have only : ∀ v, (s'.tasks v).owns = true → v = t := by
    intro v hv
    by_contra hne
    rw [ht, Function.update_of_ne hne, h.free hl v] at hv
    cases hv
  exact ⟨fun v u hv hu => (only v hv).trans (only u hu).symm,
    by simpa [hl'] using ⟨t, by simp [ht, hx]⟩⟩

/-- A change of a task which keeps whether it owns the lock. -/
theorem keep (h : s.Owned) (hx : x.owns = (s.tasks t).owns) (hl : s'.locked = s.locked)
    (ht : s'.tasks = Function.update s.tasks t x) : s'.Owned := by
  have same : ∀ v, (s'.tasks v).owns = (s.tasks v).owns := by
    intro v
    by_cases hv : v = t
    · simp [ht, hv, hx]
    · simp [ht, Function.update_of_ne hv]
  refine ⟨fun v u => ?_, ?_⟩
  · rw [same, same]; exact h.unique v u
  · simp only [hl, same]; exact h.locked

/-- The owner leaves the lock. -/
theorem drop (h : s.Owned) (ho : (s.tasks t).owns = true) (hx : x.owns = false)
    (hl : s'.locked = false) (ht : s'.tasks = Function.update s.tasks t x) : s'.Owned := by
  have none : ∀ v, (s'.tasks v).owns = false := by
    intro v
    by_cases hv : v = t
    · simp [ht, hv, hx]
    · by_contra hc
      rw [ht, Function.update_of_ne hv] at hc
      exact hv (h.unique v t (by simpa using hc) ho)
  exact ⟨fun v u hv => by simp [none] at hv, by simp [hl, none]⟩

theorem wake (h : s.Owned) : s.wake.1.Owned := by
  rcases s.wake_cases with ⟨hs, -⟩ | ⟨w, hl, -, hs⟩
  · simpa [hs] using h
  · rw [hs]; exact h.take hl rfl rfl rfl

end Owned

/-! ## No lost wake-up -/

/-- A free lock without a scheduled `_wake` has only blocked waiters. -/
def Awake (s : SessionLock) : Prop :=
  s.locked = false → s.wakes = 0 → ∀ w ∈ s.pending, s.blocked w.unit w.inSession = true

theorem awake_of_locked (h : s.locked = true) : s.Awake := by
  intro hl
  simp [h] at hl

theorem awake_wake (s : SessionLock) : s.wake.1.Awake := by
  rcases s.wake_cases with ⟨hs, hl | hb⟩ | ⟨w, -, -, hs⟩
  · rw [hs]; exact awake_of_locked hl
  · rw [hs]; exact fun _ _ => hb
  · rw [hs]; exact awake_of_locked rfl

theorem awake_scheduleWake (s : SessionLock) : s.scheduleWake.Awake := by
  intro _ hw w hp
  unfold scheduleWake at hw hp
  split at hw
  · next he =>
    rw [if_pos he] at hp
    rw [List.isEmpty_iff.mp he] at hp
    cases hp
  · simp at hw

/-- Fewer pending waiters, more sessions and fewer turns of other units keep a lock awake. -/
theorem Awake.mono (h : s.Awake) (hl : s'.locked = s.locked) (hw : s'.wakes = s.wakes)
    (hp : ∀ w ∈ s'.pending, w ∈ s.pending) (hs : ∀ u, s.sessions u ≤ s'.sessions u)
    (ht : s'.turns ⊆ s.turns) : s'.Awake := by
  intro hl' hw' w hm
  obtain ⟨hb, u, hu, hsess, hturn⟩ := blocked_iff.mp
    (h (hl ▸ hl') (hw ▸ hw') w (hp w hm))
  exact blocked_iff.mpr ⟨hb, u, hu, hsess.trans_le (hs u), fun hc => hturn (ht hc)⟩

/-- A task which does not wait has no pending waiter. -/
theorem pending_setTask_subset (hx : x ≠ .waiting .pending) :
    ∀ w ∈ (s.setTask t x).pending, w ∈ s.pending := by
  intro w hw
  obtain ⟨hm, hp⟩ := mem_pending.mp hw
  by_cases hwt : w.task = t
  · simp [hwt, hx] at hp
  · exact mem_pending.mpr ⟨hm, by simpa [Function.update_of_ne hwt] using hp⟩

theorem pending_leave_subset : ∀ w ∈ (s.leave t).pending, w ∈ s.pending := by
  intro w hw
  obtain ⟨hm, hp⟩ := mem_pending.mp hw
  exact mem_pending.mpr ⟨(List.mem_filter.mp hm).1, hp⟩

theorem Awake.setTask (h : s.Awake) (hx : x ≠ .waiting .pending) : (s.setTask t x).Awake :=
  h.mono rfl rfl (pending_setTask_subset hx) (fun _ => le_rfl) (Finset.Subset.refl _)

theorem Awake.leave (h : s.Awake) : (s.leave t).Awake :=
  h.mono rfl rfl pending_leave_subset (fun _ => le_rfl) (Finset.filter_subset _ _)

theorem Awake.cancel (h : s.Awake) (hc : s.cancel t = some s') : s'.Awake := by
  unfold SessionLock.cancel at hc
  split at hc <;> cases hc
  · exact h.setTask (by simp)
  · exact h.setTask (by simp)
  · exact h

/-! ## The invariant of a bus -/

structure Inv (s : SessionLock) : Prop where
  queue : s.Queue
  owned : s.Owned
  awake : s.Awake

theorem inv_init : init.Inv where
  queue := ⟨by simp [init], by simp [init], by simp [init]⟩
  owned := ⟨by simp [init, TaskState.owns], by simp [init, TaskState.owns]⟩
  awake := by intro _ _ w hw; simp [init] at hw

theorem release_eq (h : s.release = some s') :
    s.locked = true ∧ s' = { s with locked := false }.scheduleWake := by
  unfold release at h
  split at h
  · next hl => exact ⟨hl, (Option.some.inj h).symm⟩
  · cases h

namespace Inv

theorem wake (h : s.Inv) : s.wake.1.Inv := ⟨h.queue.wake, h.owned.wake, awake_wake s⟩

theorem runWake (h : s.Inv) : s.runWake.1.Inv :=
  have queue : { s with wakes := s.wakes - 1 }.Queue := h.queue.congr rfl rfl
  have owned : { s with wakes := s.wakes - 1 }.Owned := h.owned.congr rfl rfl
  ⟨queue.wake, owned.wake, awake_wake _⟩

theorem beginSession (h : s.Inv) : (s.beginSession u).Inv where
  queue := h.queue.congr rfl rfl
  owned := h.owned.congr rfl rfl
  awake := by
    refine h.awake.mono rfl rfl (fun _ hw => hw) (fun v => ?_) (Finset.Subset.refl _)
    by_cases hv : v = u
    · simp [SessionLock.beginSession, hv]
    · simp [SessionLock.beginSession, Function.update_of_ne hv]

theorem endSession (h : s.Inv) : (s.endSession u).Inv where
  queue := h.queue.congr (by simp [SessionLock.endSession]) (by simp [SessionLock.endSession])
  owned := h.owned.congr (by simp [SessionLock.endSession]) (by simp [SessionLock.endSession])
  awake := awake_scheduleWake _

theorem release (h : s.Inv) (ht : s.tasks t = .holding) (hr : s.release = some s') :
    (s'.setTask t .outside).Inv := by
  obtain ⟨-, rfl⟩ := release_eq hr
  refine ⟨?_, ?_, (awake_scheduleWake _).setTask (by simp)⟩
  · refine h.queue.remove (t := t) (x := .outside) (by simp) (List.Sublist.refl _)
      (fun w hw _ => hw) ?_ (by simp) (by simp)
    rintro w hw rfl
    rcases h.queue.queued w hw with hq | hq <;> simp [ht] at hq
  · exact h.owned.drop (t := t) (x := .outside) (by simp [ht, TaskState.owns]) rfl (by simp)
      (by simp)

theorem resume (h : s.Inv) (hr : s.resume t = some s') : s'.Inv := by
  unfold SessionLock.resume at hr
  split at hr
  case h_1 ht =>
    cases hr
    exact ⟨h.queue.leave (by simp), h.owned.keep (by simp [ht, TaskState.owns]) rfl rfl,
      h.awake.leave.setTask (by simp)⟩
  case h_2 ht =>
    cases hr
    exact ⟨h.queue.leave (by simp), h.owned.keep (by simp [ht, TaskState.owns]) rfl rfl,
      h.awake.leave.setTask (by simp)⟩
  case h_3 ht =>
    obtain ⟨r, released, rfl⟩ := Option.map_eq_some_iff.mp hr
    obtain ⟨-, rfl⟩ := release_eq released
    refine ⟨?_, ?_, ((awake_scheduleWake _).leave).setTask (by simp)⟩
    · exact (h.queue.congr (by simp) (by simp)).leave (by simp)
    · exact h.owned.drop (t := t) (x := .outside) (by simp [ht, TaskState.owns]) rfl (by simp)
        (by simp)
  case h_4 => cases hr

theorem cancel (h : s.Inv) (hc : s.cancel t = some s') : s'.Inv := by
  refine ⟨h.queue.cancel hc, ?_, h.awake.cancel hc⟩
  unfold SessionLock.cancel at hc
  split at hc <;> cases hc
  case h_1 ht => exact h.owned.keep (t := t) (by simp [ht, TaskState.owns]) rfl rfl
  case h_2 ht => exact h.owned.keep (t := t) (by simp [ht, TaskState.owns]) rfl rfl
  case h_3 => exact h.owned

/-- A task which was handed the lock at once goes on in the same step. -/
theorem settle (h : s.Inv) (ht : s.tasks t = .waiting .handed) :
    ((s.leave t).setTask t .holding).Inv :=
  h.resume (t := t) (by simp [SessionLock.resume, ht])

theorem acquire (h : s.Inv) (ht : s.tasks t = .outside) (unit session : Option Nat) :
    (s.acquire t unit session).1.Inv := by
  have queue : (s.enqueue (s.request t unit session)).Queue := h.queue.enqueue ht
  have owned : (s.enqueue (s.request t unit session)).Owned :=
    h.owned.keep (by simp [ht, TaskState.owns]) rfl rfl
  rcases s.acquire_cases t unit session with ⟨hl, -, -, he⟩ | ⟨hl, he⟩ | ⟨-, r, hr, next⟩
  · rw [he]
    refine ⟨?_, h.owned.take hl rfl rfl rfl, awake_of_locked rfl⟩
    exact h.queue.remove (t := t) (by simp) (List.Sublist.refl _) (fun w hw _ => hw)
      (h.queue.notMem_task ht) rfl rfl
  · rw [he]
    exact ⟨queue, owned, awake_of_locked hl⟩
  · have inv : r.1.Inv := hr ▸ ⟨queue.wake, owned.wake, awake_wake _⟩
    rcases next with he | ⟨handed, he⟩
    · exact he ▸ inv
    · rw [he]
      exact inv.settle handed

theorem step {l : Event × Option Waiter} (h : s.Inv) (hs : Step s l s') : s'.Inv := by
  cases hs with
  | acquire unit session idle => exact h.acquire idle unit session
  | resume done => exact h.resume done
  | cancel waits => exact h.cancel waits
  | release holds released => exact h.release holds released
  | beginSession => exact h.beginSession
  | endSession => exact h.endSession
  | wake => exact h.runWake

end Inv

theorem Reachable.inv (h : s.Reachable) : s.Inv :=
  Transition.Reachable.invariant (fun _ e => e ▸ inv_init) (fun _ _ _ h hs => h.step hs) h

/-- In every reachable state at most one task holds the lock or was handed it, and the lock is
locked exactly then; while it is free and no `_wake` is scheduled, every pending waiter is an
other request of a unit with a running session and without a turn. Every waiting task has its
waiter in the queue, so no request that may run is left asleep. -/
theorem handover_safe (h : s.Reachable) :
    (∀ t u, (s.tasks t).owns = true → (s.tasks u).owns = true → t = u) ∧
    (s.locked = true ↔ ∃ t, (s.tasks t).owns = true) ∧
    (∀ t, s.tasks t = .waiting .pending → ∃ w ∈ s.pending, w.task = t) ∧
    (s.locked = false → s.wakes = 0 → ∀ w ∈ s.pending,
      w.inSession = false ∧ ∃ u, w.unit = some u ∧ 0 < s.sessions u ∧ u ∉ s.turns) := by
  refine ⟨h.inv.owned.unique, h.inv.owned.locked, fun t ht => ?_, fun hl hw w hp => ?_⟩
  · obtain ⟨w, hw, rfl⟩ := h.inv.queue.waiting t ht
    exact ⟨w, mem_pending.mpr ⟨hw, ht⟩, rfl⟩
  · exact blocked_iff.mp (h.inv.awake hl hw w hp)

/-- A bus whose lock was handed to task 1, which is cancelled before it runs, while task 2
waits. -/
def handedToCancelled : SessionLock :=
  let s := (init.acquire 0 none none).1
  let s := (s.acquire 1 (some 1) none).1
  let s := (s.acquire 2 (some 2) none).1
  let s := { s with locked := false }.scheduleWake.setTask 0 .outside
  s.runWake.1.setTask 1 (.waiting .handedCancelled)

theorem reachable_handedToCancelled : handedToCancelled.Reachable := by
  have start : init.Reachable := .of_init rfl
  have first := start.next (.acquire (t := 0) none none rfl)
  have second := first.next (.acquire (t := 1) (some 1) none rfl)
  have third := second.next (.acquire (t := 2) (some 2) none rfl)
  have freed := third.next (.release (t := 0) rfl rfl)
  have handed := freed.next (.wake (by decide))
  exact handed.next (.cancel (t := 1) rfl)

theorem handover_safe_of_cancelled :
    handedToCancelled.tasks 1 = .waiting .handedCancelled ∧ handedToCancelled.locked = true ∧
      ∃ w ∈ handedToCancelled.pending, w.task = 2 :=
  have safe := handover_safe reachable_handedToCancelled
  ⟨rfl, safe.2.1.mpr ⟨1, rfl⟩, safe.2.2.1 2 rfl⟩

end SessionLock

end Evok.Bus
