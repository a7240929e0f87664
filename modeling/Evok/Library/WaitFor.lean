import Mathlib.Data.Fintype.Order
import Mathlib.Logic.Relation

/-!
# Deadlocks of tasks waiting for resources

A task holds resources and waits for others. It waits for a task which holds what it waits for.
When the resources have ranks and a task waits only for resources above those it holds, no cycle of
waiting tasks exists, so that among finitely many tasks every chain of waiting tasks ends in a task
which can go on.

## Main definitions

* `WaitFor.WaitsFor` : a task waits for a resource which another one holds.
* `WaitFor.Deadlocked` : a cycle of tasks in which each one waits for the next one.

## Main results

* `WaitFor.not_deadlocked` : no cycle when each task waits above what it holds.
* `WaitFor.exists_not_waiting` : the end of a chain of waiting tasks.
-/

namespace WaitFor

variable {τ ρ κ : Type*} (holds waits : τ → ρ → Prop)

/-- The task waits for a resource held by the other one. -/
def WaitsFor (t u : τ) : Prop :=
  ∃ r, waits t r ∧ holds u r

/-- A cycle of tasks in which each one waits for the next one. -/
def Deadlocked : Prop :=
  ∃ t, Relation.TransGen (WaitsFor holds waits) t t

variable {holds waits} [Preorder κ] {rank : ρ → κ}

/-- Along a chain of waiting tasks the resources rise. -/
theorem rank_le_of_chain (ordered : ∀ t r held, waits t r → holds t held → rank held < rank r)
    {t u : τ} (h : Relation.TransGen (WaitsFor holds waits) t u) :
    ∃ r held, waits t r ∧ holds u held ∧ rank r ≤ rank held := by
  induction h with
  | single hwait =>
    obtain ⟨r, hwaits, hholds⟩ := hwait
    exact ⟨r, r, hwaits, hholds, le_rfl⟩
  | tail _ hwait ih =>
    obtain ⟨r, held, hwaits, hholds, hle⟩ := ih
    obtain ⟨next, hnext, hnextHeld⟩ := hwait
    have hlt := ordered _ next held hnext hholds
    exact ⟨r, next, hwaits, hnextHeld, hle.trans hlt.le⟩

/-- Tasks which wait only above what they hold do not deadlock. -/
theorem not_deadlocked (ordered : ∀ t r held, waits t r → holds t held → rank held < rank r) :
    ¬ Deadlocked holds waits := by
  rintro ⟨t, hcycle⟩
  obtain ⟨r, held, hwaits, hholds, hle⟩ := rank_le_of_chain ordered hcycle
  exact absurd (ordered t r held hwaits hholds) (not_lt_of_ge hle)

omit [Preorder κ] in
/-- Without a deadlock the chain of a waiting task ends in a task which waits for none. -/
theorem exists_not_waiting [Finite τ] (h : ¬ Deadlocked holds waits) (t : τ) :
    ∃ u, Relation.ReflTransGen (WaitsFor holds waits) t u ∧ ∀ v, ¬ WaitsFor holds waits u v := by
  have hirrefl : Std.Irrefl (Relation.TransGen (flip (WaitsFor holds waits))) := by
    constructor
    intro u hcycle
    exact h ⟨u, Relation.transGen_swap.mp hcycle⟩
  have hwf := Finite.wellFounded_of_trans_of_irrefl (Relation.TransGen (flip (WaitsFor holds waits)))
  induction t using hwf.induction with
  | _ t ih =>
    by_cases hwaits : ∃ v, WaitsFor holds waits t v
    · obtain ⟨v, hv⟩ := hwaits
      obtain ⟨u, hchain, hend⟩ := ih v (.single hv)
      exact ⟨u, .head hv hchain, hend⟩
    · exact ⟨t, .refl, fun v hv => hwaits ⟨v, hv⟩⟩

end WaitFor
