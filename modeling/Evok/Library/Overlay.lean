import Mathlib.Logic.Function.Basic

/-!
# Writes as overlays of a memory

A memory maps keys to values. A write is a partial map which replaces the values of its keys. A
list of writes has the effect of one write in which the last value of each key wins; writing a
prefix of the list before the whole list does not change the result.

## Main definitions

* `apply p m` : the memory `m` after the write `p`.
* `overlay ps` : the last value of each key in the writes `ps`.

## Main results

* `applyAll_eq` : a list of writes is the write of its last values.
* `applyAll_retry` : the result of a list of writes after a part of its keys was written.
-/

namespace Overlay

variable {κ ν : Type*}

/-- The memory after a write. -/
def apply (p : κ → Option ν) (m : κ → ν) : κ → ν :=
  fun k => (p k).getD (m k)

/-- The memory after the writes. -/
def applyAll (ps : List (κ → Option ν)) (m : κ → ν) : κ → ν :=
  ps.foldl (fun m p => apply p m) m

/-- The last value of a key in the writes. -/
def overlay : List (κ → Option ν) → κ → Option ν
  | [], _ => none
  | p :: ps, k => (overlay ps k).or (p k)

@[simp] theorem overlay_nil (k : κ) : overlay ([] : List (κ → Option ν)) k = none :=
  rfl

@[simp] theorem overlay_singleton (p : κ → Option ν) (k : κ) : overlay [p] k = p k := by
  simp [overlay]

theorem overlay_append (ps qs : List (κ → Option ν)) (k : κ) :
    overlay (ps ++ qs) k = (overlay qs k).or (overlay ps k) := by
  induction ps with
  | nil => simp
  | cons p ps ih => simp [overlay, ih, Option.or_assoc]

/-- The last write wins, the keys which are not written are kept. -/
theorem applyAll_eq (ps : List (κ → Option ν)) (m : κ → ν) :
    applyAll ps m = apply (overlay ps) m := by
  induction ps generalizing m with
  | nil => rfl
  | cons p ps ih =>
    rw [applyAll, List.foldl_cons, ← applyAll, ih]
    funext k
    simp only [apply, overlay]
    cases overlay ps k <;> rfl

/-- Writes whose keys are all written again do not change the result. -/
theorem applyAll_retry {ps qs : List (κ → Option ν)}
    (covered : ∀ k, (overlay ps k).isSome → (overlay qs k).isSome) (m : κ → ν) :
    applyAll qs (applyAll ps m) = applyAll qs m := by
  simp only [applyAll_eq]
  funext k
  simp only [apply]
  cases hq : overlay qs k with
  | some v => rfl
  | none =>
    have : overlay ps k = none := by
      by_contra h
      simpa [hq] using covered k (Option.isSome_iff_ne_none.mpr h)
    simp [this]

end Overlay
