import Mathlib.Logic.Relation
import Evok.Bus.Handover

/-!
# The moves of a step

A step of the loop is a short sequence of moves: a request takes the lock, queues or is handed
the lock, a task leaves `acquire()`, the lock is freed, a session begins or ends. What every
move preserves, a step preserves, so the invariants about the queue and the turns are proved
move by move.

## Main results

* `SessionLock.Step.moves` : a step is a sequence of moves.
* `SessionLock.Step.preserves` : the invariant rule for the moves.
* `SessionLock.Step.granted` : where in a step a request is granted.
-/

namespace Evok.Bus

namespace SessionLock

variable {s s' a b : SessionLock} {t u : Nat} {w r : Waiter} {x : TaskState}
  {l : Event × Option Waiter}

/-- A move of the step with the label `l` from the state `s`. -/
inductive Move (s : SessionLock) (l : Event × Option Waiter) : SessionLock → SessionLock → Prop
  | take {w : Waiter} (grant : l.2 = some w) (empty : s.pending = []) :
      Move s l s ({ s with locked := true }.setTask w.task .holding)
  | enqueue {t : Nat} {unit session : Option Nat} (event : l.1 = .acquire t unit session)
      (idle : s.tasks t = .outside) : Move s l s (s.enqueue (s.request t unit session))
  | handOver {a : SessionLock} {w : Waiter} (grant : l.2 = some w) (chosen : a.choose = some w) :
      Move s l a (a.handOver w)
  | leave {a : SessionLock} {t : Nat} {x : TaskState} (done : a.tasks t ≠ .waiting .pending)
      (hx : x ≠ .waiting .pending) : Move s l a ((a.leave t).setTask t x)
  | stop {a : SessionLock} {t : Nat} {x : TaskState} (hx : x ≠ .waiting .pending)
      (event : a.tasks t = .waiting .pending → l.1 = .cancel t) : Move s l a (a.setTask t x)
  | free {a : SessionLock} : Move s l a { a with locked := false }.scheduleWake
  | beginSession {a : SessionLock} {u : Nat} (event : l.1 = .beginSession u) :
      Move s l a (a.beginSession u)
  | endSession {a : SessionLock} {u : Nat} (event : l.1 = .endSession u) :
      Move s l a (a.endSession u)
  | unschedule {a : SessionLock} : Move s l a { a with wakes := a.wakes - 1 }

theorem wake_moves (hg : ∀ w, a.wake.2 = some w → l.2 = some w) :
    Relation.ReflTransGen (Move s l) a a.wake.1 := by
  rcases a.wake_cases with ⟨ha, -⟩ | ⟨w, -, hc, ha⟩
  · rw [ha]
  · rw [ha] at hg ⊢
    exact .single (.handOver (hg w rfl) hc)

theorem release_moves (h : a.release = some b) : Move s l a b := by
  obtain ⟨-, rfl⟩ := release_eq h
  exact .free

theorem acquire_moves {unit session : Option Nat} (idle : s.tasks t = .outside)
    (hl : l = (.acquire t unit session, (s.acquire t unit session).2)) :
    Relation.ReflTransGen (Move s l) s (s.acquire t unit session).1 := by
  have event : l.1 = .acquire t unit session := by rw [hl]
  have grant : l.2 = (s.acquire t unit session).2 := by rw [hl]
  have queued : Relation.ReflTransGen (Move s l) s (s.enqueue (s.request t unit session)) :=
    .single (.enqueue event idle)
  rcases s.acquire_cases t unit session with ⟨-, hp, -, he⟩ | ⟨-, he⟩ | ⟨-, r, rfl, he | ⟨ht, he⟩⟩
  · rw [he] at grant ⊢
    exact .single (.take grant hp)
  · rw [he]
    exact queued
  · rw [he] at grant ⊢
    exact queued.trans (wake_moves fun w hw => grant.trans hw)
  · rw [he] at grant ⊢
    refine (queued.trans (wake_moves fun w hw => grant.trans hw)).tail ?_
    exact .leave (by simp [ht]) (by simp)

/-- A step is a sequence of moves. -/
theorem Step.moves (hs : Step s l s') : Relation.ReflTransGen (Move s l) s s' := by
  cases hs with
  | acquire unit session idle => exact acquire_moves idle rfl
  | @resume _ t done =>
    unfold SessionLock.resume at done
    split at done
    case h_1 ht =>
      cases done
      exact .single (.leave (by simp [ht]) (by simp))
    case h_2 ht =>
      cases done
      exact .single (.leave (by simp [ht]) (by simp))
    case h_3 ht =>
      obtain ⟨r, released, rfl⟩ := Option.map_eq_some_iff.mp done
      have freed := release_moves (s := s) (l := (.resume t, none)) released
      obtain ⟨-, rfl⟩ := release_eq released
      exact (Relation.ReflTransGen.single freed).tail (.leave (by simp [ht]) (by simp))
    case h_4 => cases done
  | @cancel _ t waits =>
    unfold SessionLock.cancel at waits
    split at waits <;> cases waits
    case h_1 => exact .single (.stop (by simp) fun _ => rfl)
    case h_2 => exact .single (.stop (by simp) fun _ => rfl)
    case h_3 => exact .refl
  | @release _ t holds released =>
    have freed := release_moves (s := s) (l := (.release t, none)) released
    obtain ⟨-, rfl⟩ := release_eq released
    exact (Relation.ReflTransGen.single freed).tail (.stop (by simp) (by simp [holds]))
  | beginSession u => exact .single (.beginSession rfl)
  | endSession running => exact .single (.endSession rfl)
  | wake => exact (wake_moves fun w hw => hw).head .unschedule

theorem moves_preserve {I : SessionLock → Prop} (moves : Relation.ReflTransGen (Move s l) a b)
    (start : I a) (kept : ∀ a b, Move s l a b → I a → I b) : I b := by
  induction moves with
  | refl => exact start
  | tail _ last ih => exact kept _ _ last ih

/-- What every move preserves, a step preserves. -/
theorem Step.preserves {I : SessionLock → Prop} (hs : Step s l s')
    (start : I s) (kept : ∀ a b, Move s l a b → I a → I b) : I s' :=
  moves_preserve hs.moves start kept

/-- A request is granted the bus when it takes a lock nobody waits for, or when `_wake` chooses
it after some moves; only its own task may go on in the same step. -/
theorem Step.granted (hs : Step s l s') (hl : l.2 = some w) :
    (s.pending = [] ∧ s.blocked w.unit w.inSession = false ∧
      (∃ t unit session, l.1 = .acquire t unit session ∧ w = s.request t unit session) ∧
      s' = { s with locked := true }.setTask w.task .holding) ∨
    ∃ a, Relation.ReflTransGen (Move s l) s a ∧ a.choose = some w ∧
      (s' = a.handOver w ∨ ∃ t, s' = ((a.handOver w).leave t).setTask t .holding) := by
  have chosen : ∀ {a : SessionLock}, a.wake.2 = some w →
      a.choose = some w ∧ a.wake.1 = a.handOver w := by
    intro a ha
    rcases a.wake_cases with ⟨hw, -⟩ | ⟨z, -, hc, hw⟩
    · simp [hw] at ha
    · obtain rfl : z = w := by simpa [hw] using ha
      exact ⟨hc, by rw [hw]⟩
  cases hs with
  | @acquire t unit session idle =>
    rcases s.acquire_cases t unit session with ⟨-, hp, hb, he⟩ | ⟨-, he⟩ | ⟨-, r, hr, next⟩
    · simp only [he, Option.some.injEq] at hl
      subst hl
      exact .inl ⟨hp, hb, ⟨t, unit, session, rfl, rfl⟩, by rw [he]; rfl⟩
    · simp [he] at hl
    · have grant : r.2 = some w := by rcases next with he | ⟨-, he⟩ <;> simpa [he] using hl
      obtain ⟨hc, hh⟩ := chosen (hr ▸ grant)
      refine .inr ⟨_, .single (.enqueue rfl idle), hc, ?_⟩
      rcases next with he | ⟨-, he⟩
      · exact .inl (by rw [he, ← hr, hh])
      · exact .inr ⟨t, by rw [he, ← hr, hh]⟩
  | wake =>
    obtain ⟨hc, hh⟩ := chosen hl
    exact .inr ⟨_, .single .unschedule, hc, .inl hh⟩
  | _ => simp at hl

end SessionLock

end Evok.Bus
