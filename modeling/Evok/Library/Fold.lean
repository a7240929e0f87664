import Mathlib.Data.List.Basic

/-!
# Folds which raise

A fold over a list raises at the first element which its step refuses. When the refused elements
are known from the elements before them, the fold raises exactly when the list has one.

## Main results

* `Fold.bind_eq_ok` : the results of a sequence.
* `Fold.raises_iff` : a fold with an invariant raises iff some element is refused.
* `Fold.mapM_ok` : the results of a map none of whose elements raises.
* `Fold.of_mapM_ok` : a map with results raises at no element.
-/

namespace Fold

variable {σ α ε : Type}

/-- A sequence has a result if its parts have one. -/
theorem bind_eq_ok {β : Type} {x : Except ε α} {f : α → Except ε β} {b : β} :
    x >>= f = .ok b ↔ ∃ a, x = .ok a ∧ f a = .ok b := by
  cases x with
  | ok a => exact ⟨fun h => ⟨a, rfl, h⟩, by rintro ⟨_, ⟨⟩, h⟩; exact h⟩
  | error e => exact ⟨fun h => (nomatch h), by rintro ⟨_, ⟨⟩, _⟩⟩

theorem map_eq_ok {β : Type} {x : Except ε α} {f : α → β} {b : β} :
    x.map f = .ok b ↔ ∃ a, x = .ok a ∧ f a = b := by
  cases x with
  | ok a => simp [Except.map]
  | error e => simp [Except.map]

/-- `B before a` says that the step refuses `a` after the elements `before`, the invariant
`I before s` relates the state to them. -/
theorem raises_iff {f : σ → α → Except ε σ} {I : List α → σ → Prop} {B : List α → α → Prop}
    {P : α → Prop}
    (step : ∀ before s a, P a → I before s →
      (∃ e, f s a = .error e ∧ B before a) ∨
        ∃ s', f s a = .ok s' ∧ ¬B before a ∧ I (before ++ [a]) s')
    {items : List α} (hitems : ∀ a ∈ items, P a) {before : List α} {s : σ} (h : I before s) :
    (∃ e, items.foldlM f s = .error e) ↔
      ∃ pre a post, items = pre ++ a :: post ∧ B (before ++ pre) a := by
  induction items generalizing before s with
  | nil =>
    constructor
    · rintro ⟨e, he⟩
      cases he
    · rintro ⟨pre, a, post, hsplit, -⟩
      simp at hsplit
  | cons a items ih =>
    obtain ⟨ha, hrest⟩ := List.forall_mem_cons.mp hitems
    rw [List.foldlM_cons]
    rcases step before s a ha h with ⟨e, he, hbad⟩ | ⟨s', hs', hgood, h'⟩
    · constructor
      · intro _
        exact ⟨[], a, items, rfl, by simpa using hbad⟩
      · intro _
        exact ⟨e, by rw [he]; rfl⟩
    · have hbind : (f s a >>= fun t => items.foldlM f t) = items.foldlM f s' := by
        rw [hs']
        rfl
      rw [hbind, ih hrest h']
      constructor
      · rintro ⟨pre, b, post, rfl, hbad⟩
        exact ⟨a :: pre, b, post, rfl, by simpa using hbad⟩
      · rintro ⟨pre, b, post, hsplit, hbad⟩
        cases pre with
        | nil =>
          obtain ⟨rfl, rfl⟩ := List.cons.inj hsplit
          exact absurd (by simpa using hbad) hgood
        | cons c pre =>
          obtain ⟨rfl, rfl⟩ := List.cons.inj hsplit
          exact ⟨pre, b, post, rfl, by simpa using hbad⟩

theorem mapM_ok {β : Type} {f : α → Except ε β} {items : List α}
    (h : ∀ a ∈ items, ∃ b, f a = .ok b) :
    ∃ results, items.mapM f = .ok results ∧ results.length = items.length ∧
      ∀ (i : ℕ) a, items[i]? = some a → ∃ b, results[i]? = some b ∧ f a = .ok b := by
  induction items with
  | nil => exact ⟨[], rfl, rfl, by simp⟩
  | cons a items ih =>
    obtain ⟨⟨b, hb⟩, hrest⟩ := List.forall_mem_cons.mp h
    obtain ⟨results, hresults, hlength, hall⟩ := ih hrest
    refine ⟨b :: results, ?_, by simp [hlength], ?_⟩
    · rw [List.mapM_cons, hb, hresults]
      rfl
    · intro i a' ha'
      cases i with
      | zero =>
        obtain rfl := Option.some.inj ha'
        exact ⟨b, rfl, hb⟩
      | succ i => exact hall i a' ha'

theorem of_mapM_ok {β : Type} {f : α → Except ε β} {items : List α} {results : List β}
    (h : items.mapM f = .ok results) {a : α} (ha : a ∈ items) : ∃ b, f a = .ok b := by
  induction items generalizing results with
  | nil => cases ha
  | cons first items ih =>
    rw [List.mapM_cons] at h
    cases hfirst : f first with
    | error e =>
      rw [hfirst] at h
      cases h
    | ok b =>
      rw [hfirst] at h
      cases hrest : items.mapM f with
      | error e =>
        rw [hrest] at h
        cases h
      | ok rest =>
        rcases List.mem_cons.mp ha with rfl | ha
        · exact ⟨b, hfirst⟩
        · exact ih hrest ha

end Fold
