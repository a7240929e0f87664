import Evok.Devices.Precheck

/-!
# Changes of devices

`set_devices` of `modbus/base.py` with `Client.change` of `modbus/client.py`: the assignments of a
request are grouped by the units of their devices, the units are changed one after another, the
states follow the change of a unit. What the other tasks do at the awaits is part of the functions
of the system, they change its whole state.

## Main definitions

* `System`: the devices and the units, with what a change calls.
* `operation`, `change`, `setUnit`: the assignments of one unit, under its lock.
* `setDevices`: the change of all assignments, with the calls of `set()` and the ended changes.
-/

namespace Evok

namespace Changes

open Devices (AliasValue AliasError Registry)

/-- The parameters of `set()`: an alias which is not given is `null`. -/
structure Params (V : Type) where
  aliasValue : AliasValue := .null
  others : Dict String V := ∅

/-- Other parameters than the alias are given. -/
def Params.writes {V : Type} (kw : Params V) : Bool := !kw.others.entries.isEmpty

/-- The devices `ι` with their units `υ` over the state `σ` of the process and of the units; `S` are
the sequences, `E` the errors, `R` the states of `full()`. -/
structure System (σ ι υ V S E R : Type) where
  dev : ι → Devices.Device
  registry : σ → Registry ι
  /-- The client of an `IODevice`, else the device itself. -/
  unit : ι → υ
  isClient : υ → Bool
  set : ι → Params V → σ → σ × Except E Unit
  full : ι → σ → R
  isRunning : ι → σ → Bool
  start : ι → S → σ → σ
  /-- The wait for the lock of the unit. -/
  lock : υ → σ → σ
  scanError : υ → σ → Option E
  periodicScan : υ → σ → Bool
  /-- The scan of all groups, whether the unit responds. -/
  doScan : υ → σ → σ × Bool
  /-- The read after the writes and the check of the devices, which may raise. -/
  readChanged : υ → List ι → σ → σ × Option E
  checkDevices : υ → σ → σ × Option E
  aliasError : AliasError → E
  keyError : ℕ → E
  sequenceRunning : ι → E
  /-- `UnitUnavailable` with the error of the last scan. -/
  unitUnavailable : υ → σ → E
  /-- `UnitCommunicationError`, of an error of Modbus or a timeout. -/
  communicationError : υ → E → Option E

/-- An assignment with its index. -/
abbrev Item (ι V : Type) := ℕ × ι × Params V

/-- The end of the change of a unit: `done` are the assignments whose states follow, `calls` are the
calls of `set()` and whether they returned. -/
structure Operated (σ ι E : Type) where
  world : σ
  done : List (ℕ × ι) := []
  calls : List (ℕ × Bool) := []
  result : Except E Unit

/-- The end of a change: `ended` are the changed units with the state and the result at the end of
their changes. -/
structure Changed (σ υ E R A : Type) where
  world : σ
  states : Dict ℕ R
  calls : List (ℕ × Bool) := []
  ended : List (υ × σ × Except E Unit) := []
  result : Except E A

namespace System

variable {σ ι υ V S E R : Type} (sys : System σ ι υ V S E R) (sequences : ι → Option S)

/-- The sequence of the device is started after its `set()`. -/
def startSequence (device : ι) (w : σ) : σ :=
  match sequences device with
  | some sequence => sys.start device sequence w
  | none => w

/-- `operation()`: the assignments of a unit one after another. -/
def operation : List (Item ι V) → σ → Operated σ ι E
  | [], w => { world := w, result := .ok () }
  | (index, device, kw) :: items, w =>
    if kw.writes && sys.isRunning device w && (sequences device).isNone then
      { world := w, result := .error (sys.sequenceRunning device) }
    else
      match sys.set device kw w with
      | (w, .error e) => { world := w, calls := [(index, false)], result := .error e }
      | (w, .ok ()) =>
        let rest := operation items (sys.startSequence sequences device w)
        { rest with
          done := (index, device) :: rest.done
          calls := (index, true) :: rest.calls }

/-- Whether the unit may be changed: a unit without a periodic scan is read first. -/
def checkAvailable (unit : υ) (w : σ) : σ × Except E Unit :=
  match sys.scanError unit w with
  | none => (w, .ok ())
  | some _ =>
    if sys.periodicScan unit w then (w, .error (sys.unitUnavailable unit w))
    else
      match sys.doScan unit w with
      | (w, true) => (w, .ok ())
      | (w, false) => (w, .error (sys.unitUnavailable unit w))

/-- `Client.change`: the operation under the lock of the unit, then the read and the check, also
after an error. -/
def change (unit : υ) (available read : Bool) (devices : List ι) (operation : σ → Operated σ ι E)
    (w : σ) : Operated σ ι E :=
  let w := sys.lock unit w
  match if available then sys.checkAvailable unit w else (w, .ok ()) with
  | (w, .error e) => { world := w, result := .error e }
  | (w, .ok ()) =>
    let o := operation w
    let result := o.result.mapError fun e => (sys.communicationError unit e).getD e
    let (w, raised) :=
      if read then sys.readChanged unit devices o.world else sys.checkDevices unit o.world
    { o with world := w, result := raised.elim result .error }

/-- The change of a unit; a device which is not on a Modbus unit is set as its own unit. -/
def setUnit (unit : υ) (items : List (Item ι V)) (w : σ) : Operated σ ι E :=
  if sys.isClient unit then
    let writes := items.any fun item => item.2.2.writes
    sys.change unit writes writes (items.map (·.2.1)) (sys.operation sequences items) w
  else sys.operation sequences items w

/-- The states of the done assignments. -/
def addStates (states : Dict ℕ R) (done : List (ℕ × ι)) (w : σ) : Dict ℕ R :=
  done.foldl (fun states item => states.set item.1 (sys.full item.2 w)) states

/-- The units one after another, up to the first error. -/
def setUnits : List (υ × List (Item ι V)) → σ → Dict ℕ R → Changed σ υ E R Unit
  | [], w, states => { world := w, states := states, result := .ok () }
  | (unit, items) :: units, w, states =>
    let o := sys.setUnit sequences unit items w
    let states := sys.addStates states o.done o.world
    match o.result with
    | .error e =>
      { world := o.world, states := states, calls := o.calls
        ended := [(unit, o.world, .error e)], result := .error e }
    | .ok () =>
      let rest := setUnits units o.world states
      { rest with
        calls := o.calls ++ rest.calls
        ended := (unit, o.world, .ok ()) :: rest.ended }

variable [DecidableEq ι] [DecidableEq υ]

/-- The assignments by the units of their devices, with their indices. -/
def units (assignments : List (ι × Params V)) : Dict υ (List (Item ι V)) :=
  Dict.group (fun item => sys.unit item.2.1) (assignments.zipIdx.map fun a => (a.2, a.1))

/-- The given aliases of the units, for `_check_aliases`. -/
def givenAliases (units : Dict υ (List (Item ι V))) : Dict υ (List (ι × AliasValue)) :=
  units.filterMapValues fun _ items => some (items.map fun item => (item.2.1, item.2.2.aliasValue))

/-- `set_devices`. -/
def setDevices (assignments : List (ι × Params V)) (w : σ) (states : Dict ℕ R := ∅) :
    Changed σ υ E R (List R) :=
  let units := sys.units assignments
  match Registry.checkAliases sys.dev (sys.registry w) (givenAliases units) with
  | .error e => { world := w, states := states, result := .error (sys.aliasError e) }
  | .ok _ =>
    let changed := sys.setUnits sequences units.items w states
    { changed with
      result := do
        changed.result
        (List.range assignments.length).mapM fun index =>
          (changed.states.lookup index).elim (.error (sys.keyError index)) .ok }

end System

end Changes

end Evok
