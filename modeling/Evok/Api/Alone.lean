import Evok.Api.Handlers

/-!
# The changes of a request alone

The coroutine of `set_devices` does what `System.setDevices` says when its calls that wait do what
the calls of the system say: the results of a change and the states of a partial failure are those
of the changes of devices.

## Main definitions

* `Backend.Follows`: the calls that wait, run alone, are the calls of the server.

## Main results

* `Backend.Follows.setDevices`: so is `set_devices`.
-/

namespace Evok

namespace Api

open Changes (Params Item Operated Changed)

namespace Backend

variable {σ ι υ S E : Type}

/-- The result of a call which may raise. -/
def raising (raised : Option E) : Except E Unit :=
  raised.elim (.ok ()) .error

/-- The calls that wait do what the calls of the server do, if no other one runs. -/
structure Follows (api : Backend σ ι υ S E) : Prop where
  setting : ∀ device kw w, (api.setting device kw).runAlone w = api.set device kw w
  locking : ∀ unit w, (api.locking unit).runAlone w = (api.lock unit w, .ok ())
  unlocking : ∀ unit w, (api.unlocking unit).runAlone w = (w, .ok ())
  scanning : ∀ unit w,
    (api.scanning unit).runAlone w = ((api.doScan unit w).1, .ok (api.doScan unit w).2)
  rereading : ∀ unit devices w, (api.rereading unit devices).runAlone w =
    ((api.readChanged unit devices w).1, raising (api.readChanged unit devices w).2)
  checking : ∀ unit w, (api.checking unit).runAlone w =
    ((api.checkDevices unit w).1, raising (api.checkDevices unit w).2)

variable {api : Backend σ ι υ S E} (h : api.Follows) (sequences : ι → Option S)

include h

theorem Follows.operation (items : List (Item ι Json)) (w : σ) :
    (api.operation sequences items).runAlone w =
      ((api.toSystem.operation sequences items w).world,
        .ok ((api.toSystem.operation sequences items w).done,
          (api.toSystem.operation sequences items w).result)) := by
  induction items generalizing w with
  | nil => rfl
  | cons item items ih =>
    obtain ⟨index, device, kw⟩ := item
    rw [Backend.operation, Changes.System.operation, Coroutine.runAlone_get_bind]
    split
    · rfl
    · refine (Coroutine.runAlone_bind_ok rfl).trans ?_
      refine (Coroutine.runAlone_bind_ok (Coroutine.runAlone_attempt _ _)).trans ?_
      rw [h.setting, id_eq]
      cases hset : api.set device kw w with
      | mk w' result =>
        cases result with
        | error e => rfl
        | ok _ =>
          dsimp only
          have hrest := ih (api.toSystem.startSequence sequences device w')
          cases hsequence : sequences device with
          | none =>
            simp only [Changes.System.startSequence, hsequence] at hrest ⊢
            exact (Coroutine.runAlone_bind_ok hrest).trans rfl
          | some sequence =>
            simp only [Changes.System.startSequence, hsequence] at hrest ⊢
            refine (Coroutine.runAlone_bind_ok rfl).trans ?_
            exact (Coroutine.runAlone_bind_ok hrest).trans rfl

theorem Follows.checkAvailable (unit : υ) (w : σ) :
    (api.checkAvailable unit).runAlone w = api.toSystem.checkAvailable unit w := by
  rw [Backend.checkAvailable, Changes.System.checkAvailable, Coroutine.runAlone_get_bind]
  cases herror : api.scanError unit w with
  | none => rfl
  | some error =>
    rw [if_pos Option.isSome_some, Coroutine.runAlone_get_bind]
    by_cases hperiodic : api.periodicScan unit w
    · simp only [hperiodic, if_true]
      rfl
    · simp only [hperiodic]
      refine (Coroutine.runAlone_bind_ok (h.scanning unit w)).trans ?_
      cases hscan : api.doScan unit w with
      | mk w' responds => cases responds <;> rfl

/-- The change of a unit whose operation does what the operation of the system does. -/
theorem Follows.change {o : Coroutine σ (Action ι) E (List (ℕ × ι) × Except E Unit)}
    {operation : σ → Operated σ ι E}
    (ho : ∀ w, o.runAlone w = ((operation w).world, .ok ((operation w).done, (operation w).result)))
    (unit : υ) (available read : Bool) (devices : List ι) (w : σ) :
    let changed := api.toSystem.change unit available read devices operation w
    ∃ done, (api.change unit available read devices o).runAlone w =
      (changed.world, .ok (done, changed.result)) ∧ done.getD [] = changed.done := by
  have hchecked : ((if available then api.checkAvailable unit else pure ()).attempt).runAlone
      (api.lock unit w) =
        ((if available then api.toSystem.checkAvailable unit (api.lock unit w)
          else (api.lock unit w, .ok ())).1,
        .ok (if available then api.toSystem.checkAvailable unit (api.lock unit w)
          else (api.lock unit w, .ok ())).2) := by
    rw [Coroutine.runAlone_attempt]
    cases available
    · rfl
    · simp only [if_true, h.checkAvailable]
  have hread : ∀ w, ((if read then api.rereading unit devices else api.checking unit).attempt).runAlone
      w = ((if read then api.readChanged unit devices w else api.checkDevices unit w).1,
        .ok (raising (if read then api.readChanged unit devices w
          else api.checkDevices unit w).2)) := by
    intro w
    rw [Coroutine.runAlone_attempt]
    cases read
    · simp [h.checking]
    · simp [h.rereading]
  unfold Backend.change Changes.System.change
  dsimp only
  generalize (if available then api.toSystem.checkAvailable unit (api.lock unit w)
    else (api.lock unit w, .ok ())) = checked at hchecked ⊢
  obtain ⟨w₁, checked⟩ := checked
  cases checked with
  | error e =>
    refine ⟨none, ?_, rfl⟩
    refine (Coroutine.runAlone_bind_ok (h.locking unit w)).trans ?_
    refine (Coroutine.runAlone_bind_ok hchecked).trans ?_
    refine (Coroutine.runAlone_bind_ok rfl).trans ?_
    exact (Coroutine.runAlone_bind_ok (h.unlocking unit w₁)).trans rfl
  | ok _ =>
    refine ⟨some (operation w₁).done, ?_, rfl⟩
    refine (Coroutine.runAlone_bind_ok (h.locking unit w)).trans ?_
    refine (Coroutine.runAlone_bind_ok hchecked).trans ?_
    refine (Coroutine.runAlone_bind_ok (ho w₁)).trans ?_
    refine (Coroutine.runAlone_bind_ok (hread (operation w₁).world)).trans ?_
    refine (Coroutine.runAlone_bind_ok rfl).trans ?_
    refine (Coroutine.runAlone_bind_ok (h.unlocking unit _)).trans ?_
    dsimp only
    cases (if read then api.readChanged unit devices (operation w₁).world
      else api.checkDevices unit (operation w₁).world) with
    | mk w₂ raised => cases raised <;> rfl

theorem Follows.setUnit (unit : υ) (items : List (Item ι Json)) (w : σ) :
    let changed := api.toSystem.setUnit sequences unit items w
    (api.setUnit sequences unit items).runAlone w =
      (changed.world, .ok (changed.done, changed.result)) := by
  unfold Backend.setUnit Changes.System.setUnit
  dsimp only
  split
  · obtain ⟨done, hchange, hdone⟩ := h.change (h.operation sequences items) unit
      (items.any fun item => item.2.2.writes) (items.any fun item => item.2.2.writes)
      (items.map (·.2.1)) w
    refine (Coroutine.runAlone_bind_ok hchange).trans ?_
    rw [← hdone]
    rfl
  · exact h.operation sequences items w

theorem Follows.setUnits (units : List (υ × List (Item ι Json)))
    (states : Dict ℕ (Dict String Json)) (w : σ) :
    let changed := api.toSystem.setUnits sequences units w states
    (api.setUnits sequences units states).runAlone w =
      (changed.world, .ok (changed.states, changed.result)) := by
  induction units generalizing states w with
  | nil => rfl
  | cons u units ih =>
    obtain ⟨unit, items⟩ := u
    rw [Backend.setUnits, Changes.System.setUnits]
    refine (Coroutine.runAlone_bind_ok (h.setUnit sequences unit items w)).trans ?_
    dsimp only
    rw [Coroutine.runAlone_get_bind]
    cases (api.toSystem.setUnit sequences unit items w).result with
    | error e => rfl
    | ok _ => exact ih _ _

/-- `set_devices` alone: the states of the done assignments and the result of `System.setDevices`. -/
theorem Follows.setDevices [DecidableEq ι] [DecidableEq υ] (assignments : List (ι × Params Json))
    (w : σ) :
    let changed := api.toSystem.setDevices sequences assignments w
    (api.setDevices assignments sequences).runAlone w =
      (changed.world, .ok (changed.states, changed.result)) := by
  unfold Backend.setDevices Changes.System.setDevices
  dsimp only
  rw [Coroutine.runAlone_get_bind]
  generalize Devices.Registry.checkAliases api.dev (api.registry w)
    (Changes.System.givenAliases (api.units assignments)) = checked
  cases checked with
  | error e => rfl
  | ok _ => exact (Coroutine.runAlone_bind_ok (h.setUnits sequences _ _ w)).trans rfl

end Backend

end Api

end Evok
