import Evok.Library.Script

/-!
# Two scripts in lockstep

Two scripts are related on a state when their actions lead it to one state, and both have results
with a given relation or both an error of one kind. The errors may differ otherwise, and one script
may take actions which leave the state as it is.

## Main definitions

* `Script.after` : the state after the actions of a script.
* `Script.Preserves` : the actions keep a property of the state.
* `Script.Idle` : the actions keep the state.
* `Script.Related` : the relation of two scripts on a state.

## Main results

* `Script.Related.bind` : related parts make related sequences.
* `Script.Related.of_idle` : parts without an effect.
-/

namespace Script

variable {σ A ε α β γ δ κ : Type} {exec : σ → A → σ} {s : σ}

/-- The state after the actions of a script. -/
def after (exec : σ → A → σ) (s : σ) (m : Script A ε α) : σ :=
  m.actions.foldl exec s

@[simp] theorem after_pure (a : α) : (pure a : Script A ε α).after exec s = s :=
  rfl

@[simp] theorem after_throw (e : ε) : (throw e : Script A ε α).after exec s = s :=
  rfl

@[simp] theorem after_emit (a : A) : (emit a : Script A ε Unit).after exec s = exec s a :=
  rfl

theorem after_bind_ok {m : Script A ε α} {a : α} (h : m.result = .ok a) (f : α → Script A ε β) :
    (m >>= f).after exec s = (f a).after exec (m.after exec s) := by
  obtain ⟨actions, result⟩ := m
  obtain rfl : result = .ok a := h
  exact List.foldl_append

theorem after_bind_error {m : Script A ε α} {e : ε} (h : m.result = .error e)
    (f : α → Script A ε β) : (m >>= f).after exec s = m.after exec s := by
  obtain ⟨actions, result⟩ := m
  obtain rfl : result = .error e := h
  rfl

theorem result_bind_ok {m : Script A ε α} {a : α} (h : m.result = .ok a) (f : α → Script A ε β) :
    (m >>= f).result = (f a).result := by
  obtain ⟨actions, result⟩ := m
  obtain rfl : result = .ok a := h
  rfl

theorem result_bind_error {m : Script A ε α} {e : ε} (h : m.result = .error e)
    (f : α → Script A ε β) : (m >>= f).result = .error e := by
  obtain ⟨actions, result⟩ := m
  obtain rfl : result = .error e := h
  rfl

/-- The actions of the script keep a property of the state. -/
def Preserves (exec : σ → A → σ) (P : σ → Prop) (m : Script A ε α) : Prop :=
  ∀ s, P s → P (m.after exec s)

namespace Preserves

variable {P : σ → Prop}

theorem pure (a : α) : (Pure.pure a : Script A ε α).Preserves exec P :=
  fun _ h => h

theorem throw (e : ε) : (MonadExcept.throw e : Script A ε α).Preserves exec P :=
  fun _ h => h

theorem emit {a : A} (h : ∀ s, P s → P (exec s a)) :
    (Script.emit a : Script A ε Unit).Preserves exec P :=
  h

theorem bind {m : Script A ε α} {f : α → Script A ε β} (first : m.Preserves exec P)
    (next : ∀ a, m.result = .ok a → (f a).Preserves exec P) : (m >>= f).Preserves exec P := by
  intro s h
  cases hm : m.result with
  | ok a =>
    rw [after_bind_ok hm]
    exact next a hm _ (first s h)
  | error e =>
    rw [after_bind_error hm]
    exact first s h

/-- The actions of one kind keep the property. -/
theorem of_emits {p : A → Prop} {m : Script A ε α} (h : m.Emits p)
    (kept : ∀ s a, p a → P s → P (exec s a)) : m.Preserves exec P := by
  intro s hs
  unfold after
  obtain ⟨actions, result⟩ := m
  induction actions generalizing s with
  | nil => exact hs
  | cons a actions ih =>
    exact ih _ (kept s a (h a List.mem_cons_self) hs) fun b hb => h b (List.mem_cons_of_mem a hb)

end Preserves

/-- The script keeps the state, with the result. -/
structure Idle (exec : σ → A → σ) (s : σ) (m : Script A ε α) (a : α) : Prop where
  state : m.after exec s = s
  result : m.result = .ok a

theorem Idle.pure (a : α) : (Pure.pure a : Script A ε α).Idle exec s a :=
  ⟨rfl, rfl⟩

/-- The results of two scripts are related, or both are errors of one kind. -/
inductive Results (kind : ε → κ) (Q : α → β → Prop) : Except ε α → Except ε β → Prop
  | ok {a : α} {b : β} (related : Q a b) : Results kind Q (.ok a) (.ok b)
  | error {e e' : ε} (same : kind e = kind e') : Results kind Q (.error e) (.error e')

theorem Results.elim {kind : ε → κ} {Q : α → β → Prop} {x : Except ε α} {y : Except ε β}
    (h : Results kind Q x y) :
    (∃ a b, x = .ok a ∧ y = .ok b ∧ Q a b) ∨
      ∃ e e', x = .error e ∧ y = .error e' ∧ kind e = kind e' := by
  cases h with
  | ok related => exact .inl ⟨_, _, rfl, rfl, related⟩
  | error same => exact .inr ⟨_, _, rfl, rfl, same⟩

/-- The scripts lead to one state, with related results. -/
structure Related (exec : σ → A → σ) (kind : ε → κ) (s : σ) (Q : σ → α → β → Prop)
    (m : Script A ε α) (n : Script A ε β) : Prop where
  state : m.after exec s = n.after exec s
  results : Results kind (Q (m.after exec s)) m.result n.result

namespace Related

variable {kind : ε → κ} {Q : σ → α → β → Prop} {m : Script A ε α} {n : Script A ε β}

theorem refl {Q : σ → α → α → Prop} (m : Script A ε α) (h : ∀ t a, Q t a a) :
    Related exec kind s Q m m where
  state := rfl
  results := by
    cases m.result with
    | ok a => exact .ok (h _ a)
    | error e => exact .error rfl

theorem pure {a : α} {b : β} (h : Q s a b) :
    Related exec kind s Q (Pure.pure a : Script A ε α) (Pure.pure b) :=
  ⟨rfl, .ok h⟩

theorem throw {e e' : ε} (h : kind e = kind e') :
    Related exec kind s Q (MonadExcept.throw e : Script A ε α) (MonadExcept.throw e') :=
  ⟨rfl, .error h⟩

/-- Two scripts with the effect of a third one. -/
theorem join {n : Script A ε α} {k : Script A ε β}
    (h : Related exec kind s (fun _ _ _ => True) m k)
    (h' : Related exec kind s (fun _ _ _ => True) n k) :
    Related exec kind s (fun _ _ _ => True) m n where
  state := h.state.trans h'.state.symm
  results := by
    rcases h.results.elim with ⟨a, b, hm, hk, -⟩ | ⟨e, e', hm, hk, same⟩
    · rcases h'.results.elim with ⟨a', b', hn, hk', -⟩ | ⟨e, e', hn, hk', -⟩
      · rw [hm, hn]
        exact .ok trivial
      · rw [hk] at hk'
        cases hk'
    · rcases h'.results.elim with ⟨a', b', hn, hk', -⟩ | ⟨x, x', hn, hk', same'⟩
      · rw [hk] at hk'
        cases hk'
      · rw [hk] at hk'
        obtain rfl := Except.error.inj hk'
        rw [hm, hn]
        exact .error (same.trans same'.symm)

/-- What holds of the state after the scripts. -/
theorem and_state {P : σ → Prop} (h : Related exec kind s Q m n) (after : P (m.after exec s)) :
    Related exec kind s (fun t a b => P t ∧ Q t a b) m n where
  state := h.state
  results := by
    rcases h.results.elim with ⟨a, b, hm, hn, related⟩ | ⟨e, e', hm, hn, same⟩
    · rw [hm, hn]
      exact .ok ⟨after, related⟩
    · rw [hm, hn]
      exact .error same

/-- Related parts make related sequences. -/
theorem bind {R : σ → γ → δ → Prop} {f : α → Script A ε γ} {g : β → Script A ε δ}
    (h : Related exec kind s Q m n)
    (next : ∀ t a b, Q t a b → Related exec kind t R (f a) (g b)) :
    Related exec kind s R (m >>= f) (n >>= g) := by
  rcases h.results.elim with ⟨a, b, hm, hn, related⟩ | ⟨e, e', hm, hn, same⟩
  · have hnext := next _ a b related
    constructor
    · rw [after_bind_ok hm, after_bind_ok hn, hnext.state, h.state]
    · rw [after_bind_ok hm, result_bind_ok hm, result_bind_ok hn]
      exact hnext.results
  · constructor
    · rw [after_bind_error hm, after_bind_error hn, h.state]
    · rw [result_bind_error hm, result_bind_error hn]
      exact .error same

/-- Two scripts without an effect. -/
theorem of_idle {a : α} {b : β} (hm : m.Idle exec s a) (hn : n.Idle exec s b) (h : Q s a b) :
    Related exec kind s Q m n where
  state := hm.state.trans hn.state.symm
  results := by
    rw [hm.result, hn.result, hm.state]
    exact .ok h

end Related

end Script
