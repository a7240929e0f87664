import Evok.Library.Trace

/-!
# Runs of labelled transition systems

A transition system is a relation `step s l t` with a label `l` on every step. A run is a
list of labels, so that a property of an execution (what happened, in which order, how
often) is a property of a list.

## Main definitions

* `Run step s ls t` : the labels `ls` lead from `s` to `t`.
* `Reachable step init s` : some run leads from an initial state to `s`.

## Main results

* `Run.invariant` : what every step preserves, a run preserves.
* `Run.labels_of_invariant` : what happens in a run from a state with an invariant.
* `Run.invariant_of_labels` : the same for the runs whose labels all satisfy a condition.
* `Run.deterministic` : the runs of deterministic steps with the same labels end in one state.
* `Run.count_le_potential`, `Run.count_le_credit` : a potential bounds how often a kind of label
  occurs.
* `Run.map_filterMap` : a run of a system as a run of a simpler one.
* `Run.always_iff` : the runs in which every step has a property, by what happened before it.
* `Run.states_iff` : the runs in which every state has a property, by their steps.
-/

namespace Transition

variable {σ ι : Type*} {step : σ → ι → σ → Prop}

/-- The labels `ls` lead from one state to another. -/
inductive Run (step : σ → ι → σ → Prop) : σ → List ι → σ → Prop
  | nil (s : σ) : Run step s [] s
  | cons {s t u : σ} {l : ι} {ls : List ι} (head : step s l t) (tail : Run step t ls u) :
      Run step s (l :: ls) u

/-- The states some run leads to. -/
def Reachable (step : σ → ι → σ → Prop) (init : σ → Prop) (s : σ) : Prop :=
  ∃ s₀ ls, init s₀ ∧ Run step s₀ ls s

namespace Run

theorem single {s t : σ} {l : ι} (h : step s l t) : Run step s [l] t := .cons h (.nil t)

theorem append {s t u : σ} {ls ms : List ι} (h : Run step s ls t) (g : Run step t ms u) :
    Run step s (ls ++ ms) u := by
  induction h with
  | nil => exact g
  | cons head _ ih => exact .cons head (ih g)

/-- A run splits where its labels split. -/
theorem split {s u : σ} {ls ms : List ι} (h : Run step s (ls ++ ms) u) :
    ∃ t, Run step s ls t ∧ Run step t ms u := by
  induction ls generalizing s with
  | nil => exact ⟨s, .nil s, h⟩
  | cons l ls ih =>
    cases h with
    | cons head tail =>
      obtain ⟨t, first, second⟩ := ih tail
      exact ⟨t, .cons head first, second⟩

/-- Deterministic steps lead to one state. -/
theorem deterministic (unique : ∀ s l t t', step s l t → step s l t' → t = t') {s t t' : σ}
    {ls : List ι} (h : Run step s ls t) (h' : Run step s ls t') : t = t' := by
  induction h with
  | nil s =>
    cases h'
    rfl
  | cons head _ ih =>
    cases h' with
    | cons head' tail' =>
      obtain rfl := unique _ _ _ _ head head'
      exact ih tail'

/-- Fewer restrictions on the steps allow more runs. -/
theorem mono {step' : σ → ι → σ → Prop} {s t : σ} {ls : List ι} (h : Run step s ls t)
    (sub : ∀ s l t, step s l t → step' s l t) : Run step' s ls t := by
  induction h with
  | nil s => exact .nil s
  | cons head _ ih => exact .cons (sub _ _ _ head) ih

/-- The invariant rule for the runs whose labels satisfy `P`. -/
theorem invariant_of_labels {I : σ → Prop} {P : ι → Prop}
    (preserved : ∀ s l t, P l → I s → step s l t → I t)
    {s t : σ} {ls : List ι} (h : Run step s ls t) (labels : ∀ l ∈ ls, P l) (start : I s) :
    I t := by
  induction h with
  | nil => exact start
  | cons head _ ih =>
    refine ih (fun l hl => labels l (List.mem_cons_of_mem _ hl)) ?_
    exact preserved _ _ _ (labels _ List.mem_cons_self) start head

/-- What every step preserves, a run preserves. -/
theorem invariant {I : σ → Prop} (preserved : ∀ s l t, I s → step s l t → I t)
    {s t : σ} {ls : List ι} (h : Run step s ls t) (start : I s) : I t :=
  h.invariant_of_labels (P := fun _ => True) (fun s l t _ => preserved s l t)
    (fun _ _ => trivial) start

/-- The labels of a run from a state with the invariant. -/
theorem labels_of_invariant {I : σ → Prop} {Q : ι → Prop}
    (preserved : ∀ s l t, I s → step s l t → I t) (allowed : ∀ s l t, I s → step s l t → Q l)
    {s t : σ} {ls : List ι} (h : Run step s ls t) (start : I s) : ∀ l ∈ ls, Q l := by
  induction h with
  | nil => simp
  | cons head _ ih =>
    refine List.forall_mem_cons.mpr ⟨allowed _ _ _ start head, ?_⟩
    exact ih (preserved _ _ _ start head)

/-- A potential that no step raises and every step of kind `p` lowers bounds the number of
these steps. The invariant `I` may be used for both. -/
theorem count_le_potential {I : σ → Prop} {P : ι → Prop} {p : ι → Bool} {V : σ → Nat}
    (preserved : ∀ s l t, P l → I s → step s l t → I t)
    (lowered : ∀ s l t, P l → I s → step s l t →
      V t + (if p l then 1 else 0) ≤ V s)
    {s t : σ} {ls : List ι} (h : Run step s ls t) (labels : ∀ l ∈ ls, P l) (start : I s) :
    ls.countP p + V t ≤ V s := by
  induction h with
  | nil => simp
  | @cons s t u l ls head _ ih =>
    have hl : P l := labels l List.mem_cons_self
    have rest := ih (fun m hm => labels m (List.mem_cons_of_mem _ hm))
      (preserved _ _ _ hl start head)
    have first := lowered _ _ _ hl start head
    rw [List.countP_cons]
    omega

/-- The same with a credit: a step of kind `q` may raise the potential by `c`. -/
theorem count_le_credit {I : σ → Prop} {p q : ι → Bool} {V : σ → Nat} {c : Nat}
    (preserved : ∀ s l t, I s → step s l t → I t)
    (moved : ∀ s l t, I s → step s l t →
      V t + (if p l then 1 else 0) ≤ V s + if q l then c else 0)
    {s t : σ} {ls : List ι} (h : Run step s ls t) (start : I s) :
    ls.countP p + V t ≤ V s + c * ls.countP q := by
  induction h with
  | nil => simp
  | @cons s t u l ls head _ ih =>
    have rest := ih (preserved _ _ _ start head)
    have first := moved _ _ _ start head
    have credit : c * (if q l then 1 else 0) = if q l then c else 0 := by split <;> simp
    rw [List.countP_cons, List.countP_cons, Nat.mul_add, credit]
    omega

/-- A map of the states takes a run to a run, if it takes every step to a step or to none. -/
theorem map_filterMap {τ κ : Type*} {step' : τ → κ → τ → Prop} {I : σ → Prop} {f : σ → τ}
    {g : ι → Option κ} (preserved : ∀ s l t, I s → step s l t → I t)
    (mapped : ∀ s l t, I s → step s l t → Run step' (f s) (g l).toList (f t))
    {s t : σ} {ls : List ι} (h : Run step s ls t) (start : I s) :
    Run step' (f s) (ls.filterMap g) (f t) := by
  induction h with
  | nil s => exact .nil (f s)
  | @cons s t u l ls head _ ih =>
    have first := mapped _ _ _ start head
    have rest := ih (preserved _ _ _ start head)
    cases hl : g l with
    | none =>
      rw [List.filterMap_cons_none hl]
      rw [hl] at first
      exact first.append rest
    | some k =>
      rw [List.filterMap_cons_some hl]
      rw [hl] at first
      exact first.append rest

/-- The exact condition of a property of steps. While the labels before a step satisfy `Q` at
their places, the invariant `I` of the labels and the state holds, and a step has the property `P`
if and only if `Q` holds of it. Then every step of a run has `P` if and only if `Q` holds at every
place of the run. -/
theorem always_iff {I : List ι → σ → Prop} {P : List ι → ι → σ → Prop} {Q : List ι → ι → Prop}
    (unique : ∀ s l t t', step s l t → step s l t' → t = t')
    (exact : ∀ before s l t, I before s → step s l t →
      (P before l t ↔ Q before l) ∧ (Q before l → I (before ++ [l]) t))
    {s t : σ} {ls : List ι} (h : Run step s ls t) (start : I [] s) :
    (∀ before l after u, ls = before ++ l :: after → Run step s (before ++ [l]) u → P before l u) ↔
      ∀ before l after, ls = before ++ l :: after → Q before l := by
  have key : ((∀ before l after u, ls = before ++ l :: after → Run step s (before ++ [l]) u →
      P before l u) ↔ ∀ before l after, ls = before ++ l :: after → Q before l) ∧
      ((∀ before l after, ls = before ++ l :: after → Q before l) → I ls t) := by
    induction ls using List.reverseRecOn generalizing t with
    | nil =>
      cases h
      exact ⟨by simp, fun _ => start⟩
    | append_singleton ls k ih =>
      obtain ⟨v, first, last⟩ := h.split
      obtain ⟨iff, inv⟩ := ih first
      have hstep : step v k t := by
        cases last with
        | cons head tail => cases tail; exact head
      -- the last place decides, after the places before it
      have hall : (∀ before l after, ls ++ [k] = before ++ l :: after → Q before l) ↔
          (∀ before l after, ls = before ++ l :: after → Q before l) ∧ Q ls k := by
        constructor
        · intro hq
          refine ⟨fun before l after hsplit => hq before l (after ++ [k]) ?_, hq ls k [] rfl⟩
          rw [hsplit, List.append_assoc, List.cons_append]
        · rintro ⟨hq, hk⟩ before l after hsplit
          rcases Trace.concat_eq_append_cons.mp hsplit with ⟨rfl, rfl, -⟩ | ⟨rest, hrest, -⟩
          · exact hk
          · exact hq before l rest hrest
      have hsteps : (∀ before l after u, ls ++ [k] = before ++ l :: after →
          Run step s (before ++ [l]) u → P before l u) ↔
          (∀ before l after u, ls = before ++ l :: after → Run step s (before ++ [l]) u →
            P before l u) ∧ P ls k t := by
        constructor
        · intro hp
          refine ⟨fun before l after u hsplit => hp before l (after ++ [k]) u ?_,
            hp ls k [] t rfl h⟩
          rw [hsplit, List.append_assoc, List.cons_append]
        · rintro ⟨hp, hk⟩ before l after u hsplit hrun
          rcases Trace.concat_eq_append_cons.mp hsplit with ⟨rfl, rfl, -⟩ | ⟨rest, hrest, -⟩
          · exact hrun.deterministic unique h ▸ hk
          · exact hp before l rest u hrest hrun
      rw [hall, hsteps, iff]
      refine ⟨and_congr_right fun hq => (exact ls v k t (inv hq) hstep).1, ?_⟩
      rintro ⟨hq, hk⟩
      exact (exact ls v k t (inv hq) hstep).2 hk
  exact key.1

/-- The exact condition of a property of states. From a state with the property `P` and the
invariant `I`, a step keeps the invariant, and it keeps `P` if and only if it satisfies `Q`. Then
every state of a run has `P` if and only if its steps all satisfy `Q`. -/
theorem states_iff {I P : σ → Prop} {Q : σ → ι → Prop}
    (unique : ∀ s l t t', step s l t → step s l t' → t = t')
    (exact : ∀ s l t, I s → P s → step s l t → I t ∧ (P t ↔ Q s l))
    {s t : σ} {ls : List ι} (h : Run step s ls t) (start : I s) (first : P s) :
    (∀ before after u, ls = before ++ after → Run step s before u → P u) ↔
      ∀ before l after u, ls = before ++ l :: after → Run step s before u → Q u l := by
  induction h with
  | nil s =>
    constructor
    · intro _ before l after u hsplit
      simp at hsplit
    · intro _ before after u hsplit hrun
      obtain ⟨rfl, -⟩ := List.append_eq_nil_iff.mp hsplit.symm
      cases hrun
      exact first
  | @cons s m t k ls head tail ih =>
    obtain ⟨hinv, hkeeps⟩ := exact s k m start first head
    -- a nonempty beginning of the run goes through the first step
    have hfirst : ∀ {before : List ι} {u : σ}, Run step s (k :: before) u → Run step m before u := by
      intro before u hrun
      cases hrun with
      | cons head' tail' =>
        obtain rfl := unique _ _ _ _ head head'
        exact tail'
    constructor
    · intro hstates before l after u hsplit hrun
      have hm : P m := hstates [k] ls m rfl (.single head)
      cases before with
      | nil =>
        obtain ⟨rfl, -⟩ := List.cons.inj hsplit
        cases hrun
        exact hkeeps.mp hm
      | cons k' before =>
        obtain ⟨rfl, rfl⟩ := List.cons.inj hsplit
        refine (ih hinv hm).mp (fun before after u hsplit hrun => ?_) before l after u rfl (hfirst hrun)
        exact hstates (k :: before) after u (by rw [hsplit, List.cons_append]) (.cons head hrun)
    · intro hsteps before after u hsplit hrun
      have hm : P m := hkeeps.mpr (hsteps [] k ls s rfl (.nil s))
      cases before with
      | nil =>
        cases hrun
        exact first
      | cons k' before =>
        obtain ⟨rfl, rfl⟩ := List.cons.inj hsplit
        refine (ih hinv hm).mpr (fun before l after u hsplit hrun => ?_) before after u rfl
          (hfirst hrun)
        exact hsteps (k :: before) l after u (by rw [hsplit, List.cons_append]) (.cons head hrun)

end Run

namespace Reachable

variable {init : σ → Prop}

theorem of_init {s : σ} (h : init s) : Reachable step init s := ⟨s, [], h, .nil s⟩

theorem trans {s t : σ} {ls : List ι} (h : Reachable step init s) (g : Run step s ls t) :
    Reachable step init t := by
  obtain ⟨s₀, ms, start, run⟩ := h
  exact ⟨s₀, ms ++ ls, start, run.append g⟩

theorem next {s t : σ} {l : ι} (h : Reachable step init s) (g : step s l t) :
    Reachable step init t := h.trans (.single g)

/-- An invariant of the initial states and of the steps holds in every reachable state. -/
theorem invariant {I : σ → Prop} (base : ∀ s, init s → I s)
    (preserved : ∀ s l t, I s → step s l t → I t) {s : σ} (h : Reachable step init s) :
    I s := by
  obtain ⟨s₀, ls, start, run⟩ := h
  exact run.invariant preserved (base s₀ start)

end Reachable

end Transition
