/-!
# Scripts of actions

A script is what a procedure does: the actions it takes in order, up to its result or its error.
The actions before an error are kept. A procedure whose decisions depend only on its arguments is
modelled by its script, an execution which is interrupted takes a prefix of the actions.

## Main definitions

* `Script A ε α` : a list of actions with a result; a monad with exceptions.
* `Script.emit` : take one action.
* `Script.Emits` : all actions satisfy a predicate.

## Main results

* `Script.bind_ok`, `Script.bind_error` : the actions of a sequence.
* `Script.Emits.bind` : what holds of the actions of the parts holds of a sequence.
-/

/-- The actions of a procedure with its result. -/
structure Script (A ε α : Type) where
  actions : List A
  result : Except ε α

namespace Script

variable {A ε α β : Type}

instance : Monad (Script A ε) where
  pure a := ⟨[], .ok a⟩
  bind m f :=
    match m.result with
    | .ok a => ⟨m.actions ++ (f a).actions, (f a).result⟩
    | .error e => ⟨m.actions, .error e⟩

instance : MonadExceptOf ε (Script A ε) where
  throw e := ⟨[], .error e⟩
  tryCatch m f :=
    match m.result with
    | .ok _ => m
    | .error e => ⟨m.actions ++ (f e).actions, (f e).result⟩

/-- Take one action. -/
def emit (a : A) : Script A ε Unit :=
  ⟨[a], .ok ()⟩

@[simp] theorem pure_eq (a : α) : (pure a : Script A ε α) = ⟨[], .ok a⟩ :=
  rfl

@[simp] theorem throw_eq (e : ε) : (throw e : Script A ε α) = ⟨[], .error e⟩ :=
  rfl

@[simp] theorem map_eq (f : α → β) (m : Script A ε α) :
    f <$> m = m >>= fun a => pure (f a) :=
  rfl

@[simp] theorem bind_ok (actions : List A) (a : α) (f : α → Script A ε β) :
    (⟨actions, .ok a⟩ >>= f : Script A ε β) = ⟨actions ++ (f a).actions, (f a).result⟩ :=
  rfl

@[simp] theorem bind_error (actions : List A) (e : ε) (f : α → Script A ε β) :
    (⟨actions, .error e⟩ >>= f : Script A ε β) = ⟨actions, .error e⟩ :=
  rfl

@[simp] theorem emit_bind (a : A) (f : Unit → Script A ε β) :
    (emit a >>= f) = ⟨a :: (f ()).actions, (f ()).result⟩ :=
  rfl

/-- All actions of the script satisfy the predicate. -/
def Emits (p : A → Prop) (m : Script A ε α) : Prop :=
  ∀ a ∈ m.actions, p a

section Emits

variable {p : A → Prop}

theorem Emits.mono {q : A → Prop} {m : Script A ε α} (h : m.Emits p) (sub : ∀ a, p a → q a) :
    m.Emits q :=
  fun a ha => sub a (h a ha)

theorem emits_throw (e : ε) : (throw e : Script A ε α).Emits p := by
  simp [Emits]

theorem emits_emit {a : A} (h : p a) : (emit a : Script A ε Unit).Emits p := by
  simpa [Emits, emit] using h

theorem Emits.bind {m : Script A ε α} {f : α → Script A ε β} (hm : m.Emits p)
    (hf : ∀ a, m.result = .ok a → (f a).Emits p) : (m >>= f).Emits p := by
  obtain ⟨actions, result⟩ := m
  cases result with
  | ok a =>
    intro b hb
    rcases List.mem_append.mp hb with first | second
    · exact hm b first
    · exact hf a rfl b second
  | error e => exact hm

end Emits

end Script
