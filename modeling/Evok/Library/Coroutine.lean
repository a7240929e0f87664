/-!
# Coroutines over a shared state

A coroutine runs in segments: between two waits it runs alone, at a wait the others run and change
the shared state. What it executes is recorded as actions. A coroutine which only reads leaves the
state as it is in all its segments, whatever the others do between them.

## Main definitions

* `Coroutine σ ω ε α` : a coroutine over the state `σ` with the actions `ω`; a monad with exceptions.
* `Coroutine.attempt` : the result of a coroutine or its error, as a value.
* `Coroutine.segment` : what a coroutine does up to its next wait.
* `Coroutine.runAlone` : what a coroutine does if no other one runs.
* `Coroutine.ReadOnly` : no action occurs, whatever is read.

## Main results

* `Coroutine.runAlone_bind_ok` : the run of a sequence.
* `Coroutine.ReadOnly.bind`, `Coroutine.ReadOnly.attempt` : the parts of a coroutine which reads.
* `Coroutine.ReadOnly.segment` : the segments of a coroutine which reads.
-/

/-- A coroutine: its result, a read of the state, an action with its change of the state, or a
wait. -/
inductive Coroutine (σ ω ε α : Type)
  | done (result : Except ε α)
  | look (next : σ → Coroutine σ ω ε α)
  | act (action : ω) (change : σ → σ) (next : Coroutine σ ω ε α)
  | wait (next : Coroutine σ ω ε α)

/-- What a coroutine did up to its next wait, and what is left of it. -/
structure Segment (σ ω ε α : Type) where
  world : σ
  actions : List ω := []
  rest : Coroutine σ ω ε α

namespace Coroutine

variable {σ ω ε α β : Type}

/-- Go on with the result of a coroutine, or with its error. -/
def andThen (f : Except ε α → Coroutine σ ω ε β) : Coroutine σ ω ε α → Coroutine σ ω ε β
  | done result => f result
  | look next => look fun w => andThen f (next w)
  | act action change next => act action change (andThen f next)
  | wait next => wait (andThen f next)

instance : Monad (Coroutine σ ω ε) where
  pure a := done (.ok a)
  bind c f := c.andThen fun
    | .ok a => f a
    | .error e => done (.error e)

instance : MonadExceptOf ε (Coroutine σ ω ε) where
  throw e := done (.error e)
  tryCatch c f := c.andThen fun
    | .ok a => done (.ok a)
    | .error e => f e

/-- The result or the error as a value. -/
def attempt (c : Coroutine σ ω ε α) : Coroutine σ ω ε (Except ε α) :=
  c.andThen fun result => done (.ok result)

/-- A value of the state. -/
def get (f : σ → α) : Coroutine σ ω ε α :=
  look fun w => done (.ok (f w))

/-- A value of the state, or an error. -/
def ask (f : σ → Except ε α) : Coroutine σ ω ε α :=
  look fun w => done (f w)

/-- The value, or the error. -/
def ofExcept (result : Except ε α) : Coroutine σ ω ε α :=
  done result

/-- Let the others run. -/
def pause : Coroutine σ ω ε Unit :=
  wait (done (.ok ()))

/-- An action with its change of the state. -/
def modify (action : ω) (change : σ → σ) : Coroutine σ ω ε Unit :=
  act action change (done (.ok ()))

/-- An action begins, its changes follow. -/
def begins (action : ω) : Coroutine σ ω ε Unit :=
  modify action id

/-- What a coroutine does up to its next wait. -/
def segment : Coroutine σ ω ε α → σ → Segment σ ω ε α
  | done result, w => { world := w, rest := done result }
  | look next, w => (next w).segment w
  | act action change next, w =>
    let s := next.segment (change w)
    { s with actions := action :: s.actions }
  | wait next, w => { world := w, rest := next }

/-- The state and the result of a coroutine which runs alone, its waits pass at once. -/
def runAlone : Coroutine σ ω ε α → σ → σ × Except ε α
  | done result, w => (w, result)
  | look next, w => (next w).runAlone w
  | act _ change next, w => next.runAlone (change w)
  | wait next, w => next.runAlone w

theorem runAlone_andThen (c : Coroutine σ ω ε α) (f : Except ε α → Coroutine σ ω ε β) (w : σ) :
    (c.andThen f).runAlone w = (f (c.runAlone w).2).runAlone (c.runAlone w).1 := by
  induction c generalizing w with
  | done result => rfl
  | look next ih => exact ih w w
  | act action change next ih => exact ih (change w)
  | wait next ih => exact ih w

/-- A coroutine goes on with the result of the first one. -/
theorem runAlone_bind_ok {c : Coroutine σ ω ε α} {f : α → Coroutine σ ω ε β} {w w' : σ} {a : α}
    (h : c.runAlone w = (w', .ok a)) : (c >>= f).runAlone w = (f a).runAlone w' := by
  refine (runAlone_andThen c _ w).trans ?_
  rw [h]

theorem runAlone_get_bind (f : σ → α) (g : α → Coroutine σ ω ε β) (w : σ) :
    (get f >>= g).runAlone w = (g (f w)).runAlone w :=
  rfl

theorem runAlone_attempt (c : Coroutine σ ω ε α) (w : σ) :
    c.attempt.runAlone w = ((c.runAlone w).1, .ok (c.runAlone w).2) :=
  runAlone_andThen c _ w

/-- The coroutine executes no action, whatever it reads. -/
def ReadOnly : Coroutine σ ω ε α → Prop
  | done _ => True
  | look next => ∀ w, (next w).ReadOnly
  | act _ _ _ => False
  | wait next => next.ReadOnly

namespace ReadOnly

theorem andThen {c : Coroutine σ ω ε α} {f : Except ε α → Coroutine σ ω ε β} (hc : c.ReadOnly)
    (hf : ∀ result, (f result).ReadOnly) : (c.andThen f).ReadOnly := by
  induction c with
  | done result => exact hf result
  | look next ih => exact fun w => ih w (hc w)
  | act action change next ih => exact hc.elim
  | wait next ih => exact ih hc

@[simp] theorem pure (a : α) : (Pure.pure a : Coroutine σ ω ε α).ReadOnly :=
  trivial

@[simp] theorem throw (e : ε) : (MonadExcept.throw e : Coroutine σ ω ε α).ReadOnly :=
  trivial

@[simp] theorem get (f : σ → α) : (Coroutine.get f : Coroutine σ ω ε α).ReadOnly :=
  fun _ => trivial

@[simp] theorem ask (f : σ → Except ε α) : (Coroutine.ask f : Coroutine σ ω ε α).ReadOnly :=
  fun _ => trivial

@[simp] theorem ofExcept (result : Except ε α) :
    (Coroutine.ofExcept result : Coroutine σ ω ε α).ReadOnly :=
  trivial

@[simp] theorem pause : (Coroutine.pause : Coroutine σ ω ε Unit).ReadOnly :=
  trivial

/-- A sequence reads if its parts read. -/
theorem bind {c : Coroutine σ ω ε α} {f : α → Coroutine σ ω ε β} (hc : c.ReadOnly)
    (hf : ∀ a, (f a).ReadOnly) : (c >>= f).ReadOnly := by
  refine hc.andThen fun result => ?_
  cases result with
  | ok a => exact hf a
  | error e => trivial

theorem get_bind {f : σ → α} {g : α → Coroutine σ ω ε β} (hg : ∀ w, (g (f w)).ReadOnly) :
    (Coroutine.get f >>= g).ReadOnly :=
  hg

theorem map {c : Coroutine σ ω ε α} (f : α → β) (hc : c.ReadOnly) : (f <$> c).ReadOnly :=
  hc.bind fun _ => trivial

/-- The handling of an error reads if its parts read. -/
theorem tryCatch {c : Coroutine σ ω ε α} {f : ε → Coroutine σ ω ε α} (hc : c.ReadOnly)
    (hf : ∀ e, (f e).ReadOnly) : (MonadExcept.tryCatch c f).ReadOnly := by
  refine hc.andThen fun result => ?_
  cases result with
  | ok a => trivial
  | error e => exact hf e

theorem attempt {c : Coroutine σ ω ε α} (hc : c.ReadOnly) : c.attempt.ReadOnly :=
  hc.andThen fun _ => trivial

/-- A segment of a coroutine which reads leaves the state, and the rest reads too. -/
theorem segment {c : Coroutine σ ω ε α} (hc : c.ReadOnly) (w : σ) :
    (c.segment w).world = w ∧ (c.segment w).actions = [] ∧ (c.segment w).rest.ReadOnly := by
  induction c with
  | done result => exact ⟨rfl, rfl, trivial⟩
  | look next ih => exact ih w (hc w)
  | act action change next ih => exact hc.elim
  | wait next ih => exact ⟨rfl, rfl, hc⟩

end ReadOnly

end Coroutine
