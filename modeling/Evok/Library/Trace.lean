import Mathlib.Data.List.Dedup
import Mathlib.Data.List.Sort
import Mathlib.Data.List.Induction

/-!
# Traces

A trace is the list of what has happened. Its properties say of each entry what has happened before
it, or what has happened since.

## Main definitions

* `Before P trace`: `P` holds of each entry and the trace before it.
* `After Q trace`: `Q` holds of each entry and the trace after it.

## Main results

* `before_concat`, `After.concat`: the properties of a trace with a new entry.
* `dedup_sublist`: entries in the order of their ranks, without the repeated ones.
-/

namespace Trace

variable {α : Type*}

/-- A trace with a last entry splits before it or inside the others. -/
theorem concat_eq_append_cons {trace before after : List α} {x e : α} :
    trace ++ [x] = before ++ e :: after ↔
      (before = trace ∧ e = x ∧ after = []) ∨
        ∃ rest, trace = before ++ e :: rest ∧ after = rest ++ [x] := by
  constructor
  · intro h
    cases after using List.reverseRecOn with
    | nil =>
      obtain ⟨rfl, hlast⟩ := List.append_inj' h rfl
      exact .inl ⟨rfl, (List.cons.inj hlast).1.symm, rfl⟩
    | append_singleton rest y _ =>
      rw [← List.cons_append, ← List.append_assoc] at h
      obtain ⟨rfl, hlast⟩ := List.append_inj' h rfl
      exact .inr ⟨rest, rfl, by rw [(List.cons.inj hlast).1]⟩
  · rintro (⟨rfl, rfl, rfl⟩ | ⟨rest, rfl, rfl⟩)
    · rfl
    · simp

/-- Each entry has the property `P` with the trace before it. -/
def Before (P : List α → α → Prop) (trace : List α) : Prop :=
  ∀ before e after, trace = before ++ e :: after → P before e

theorem before_nil (P : List α → α → Prop) : Before P [] := by
  intro before e after h
  simp at h

theorem before_concat {P : List α → α → Prop} {trace : List α} {x : α} :
    Before P (trace ++ [x]) ↔ Before P trace ∧ P trace x := by
  constructor
  · intro h
    refine ⟨fun before e after hsplit => h before e (after ++ [x]) ?_, h trace x [] rfl⟩
    rw [hsplit, List.append_assoc, List.cons_append]
  · rintro ⟨h, hx⟩ before e after hsplit
    rcases concat_eq_append_cons.mp hsplit with ⟨rfl, rfl, -⟩ | ⟨rest, hrest, -⟩
    · exact hx
    · exact h before e rest hrest

/-- Each entry has the property `Q` with the trace after it. -/
def After (Q : α → List α → Prop) (trace : List α) : Prop :=
  ∀ before e after, trace = before ++ e :: after → Q e after

/-- What holds of the entries with a longer trace after them, and of the new entry. -/
theorem After.concat {Q Q' : α → List α → Prop} {trace : List α} {x : α} (h : After Q trace)
    (longer : ∀ e after, Q e after → Q' e (after ++ [x])) (last : Q' x []) :
    After Q' (trace ++ [x]) := by
  intro before e after hsplit
  rcases concat_eq_append_cons.mp hsplit with ⟨rfl, rfl, rfl⟩ | ⟨rest, hrest, rfl⟩
  · exact last
  · exact longer e rest (h before e rest hrest)

theorem After.mono {Q Q' : α → List α → Prop} {trace : List α} (h : After Q trace)
    (sub : ∀ e after, Q e after → Q' e after) : After Q' trace :=
  fun before e after hsplit => sub e after (h before e after hsplit)

/-- Entries taken in the order of their ranks, some of them repeatedly, are without the repeated
ones a part of all entries in this order. -/
theorem dedup_sublist [DecidableEq α] (rank : α → ℕ) {taken all : List α}
    (order : taken.Pairwise fun a b => rank a < rank b ∨ a = b)
    (rising : all.Pairwise fun a b => rank a < rank b) (sub : ∀ a ∈ taken, a ∈ all) :
    taken.dedup.Sublist all := by
  have hnodup := List.nodup_dedup taken
  have horder : taken.dedup.Pairwise fun a b => rank a < rank b := by
    refine ((order.sublist (List.dedup_sublist taken)).and hnodup).imp fun {a b} h => ?_
    exact h.1.resolve_right h.2
  have hsub : taken.dedup.Subperm all :=
    List.subperm_of_subset hnodup fun a ha => sub a (List.mem_dedup.mp ha)
  have : Std.Antisymm fun a b : α => rank a < rank b :=
    ⟨fun a b hab hba => absurd hab (Nat.lt_asymm hba)⟩
  exact List.sublist_of_subperm_of_pairwise hsub horder rising

end Trace
