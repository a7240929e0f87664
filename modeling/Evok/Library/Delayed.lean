import Mathlib.Data.List.Induction
import Mathlib.Logic.Function.Basic

/-!
# A memory which applies its writes later

The memory accepts writes and applies them in their order, each one until its deadline. A read
before that returns an old value.

## Main definitions

* `Delayed` : a memory with the accepted writes which are not applied yet.
* `Delayed.settled` : the memory after all of them.

## Main results

* `Delayed.settled_accept`, `Delayed.settled_applied` : the settled memory follows the accepted
  writes only.
* `Delayed.settled_of_notPending` : a key without such a write is settled.
-/

/-- A write accepted by a memory. -/
structure Delayed.Write (κ ν τ : Type*) where
  key : κ
  value : ν
  deadline : τ

/-- A memory with its accepted writes which are not applied yet, in their order. -/
structure Delayed (κ ν τ : Type*) where
  memory : κ → ν
  pending : List (Delayed.Write κ ν τ)

namespace Delayed

variable {κ ν τ : Type*} [DecidableEq κ]

/-- Accept a write. -/
def accept (d : Delayed κ ν τ) (write : Write κ ν τ) : Delayed κ ν τ :=
  { d with pending := d.pending ++ [write] }

/-- Apply the first accepted write. -/
def applied (d : Delayed κ ν τ) : Delayed κ ν τ :=
  match d.pending with
  | [] => d
  | write :: pending => ⟨Function.update d.memory write.key write.value, pending⟩

/-- The memory after the accepted writes. -/
def settled (d : Delayed κ ν τ) : κ → ν :=
  d.pending.foldl (fun memory write => Function.update memory write.key write.value) d.memory

/-- A write of the key is not applied yet. -/
def isPending (d : Delayed κ ν τ) (k : κ) : Bool :=
  d.pending.any fun write => write.key = k

@[simp] theorem settled_accept (d : Delayed κ ν τ) (write : Write κ ν τ) :
    (d.accept write).settled = Function.update d.settled write.key write.value := by
  rw [settled, accept, List.foldl_append]
  rfl

@[simp] theorem settled_applied (d : Delayed κ ν τ) : d.applied.settled = d.settled := by
  unfold applied settled
  split <;> simp_all

theorem pending_applied (d : Delayed κ ν τ) : d.applied.pending ⊆ d.pending := by
  unfold applied
  split
  · exact List.Subset.refl _
  · next write pending heq =>
    rw [heq]
    exact List.subset_cons_self _ _

theorem settled_of_pending_nil {d : Delayed κ ν τ} (h : d.pending = []) : d.settled = d.memory := by
  rw [settled, h, List.foldl_nil]

/-- A key which no accepted write changes has its last value. -/
theorem settled_of_notPending {d : Delayed κ ν τ} {k : κ} (h : d.isPending k = false) :
    d.settled k = d.memory k := by
  obtain ⟨memory, pending⟩ := d
  simp only [settled, isPending, List.any_eq_false, decide_eq_true_eq] at h ⊢
  induction pending generalizing memory with
  | nil => rfl
  | cons write pending ih =>
    obtain ⟨hfirst, hrest⟩ := List.forall_mem_cons.mp h
    rw [List.foldl_cons, ih _ hrest, Function.update_of_ne (Ne.symm hfirst)]

/-- A change of other keys of the memory keeps the settled value. -/
theorem settled_congr {d : Delayed κ ν τ} {memory : κ → ν} {k : κ} (h : memory k = d.memory k) :
    ({ d with memory } : Delayed κ ν τ).settled k = d.settled k := by
  obtain ⟨old, pending⟩ := d
  simp only [settled] at h ⊢
  induction pending generalizing memory old with
  | nil => exact h
  | cons write pending ih =>
    rw [List.foldl_cons, List.foldl_cons]
    apply ih
    by_cases heq : k = write.key
    · rw [heq, Function.update_self, Function.update_self]
    · rw [Function.update_of_ne heq, Function.update_of_ne heq, h]

end Delayed
