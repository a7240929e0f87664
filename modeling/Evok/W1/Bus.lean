import Evok.Library.Dict
import Evok.Library.Run
import Evok.W1.Sysfs

/-!
# The sensors of a 1-Wire bus

`OwBusDriver` of `w1/bus.py`: `scanning` assigns the found slaves to the sensors and creates the
others, `poll` reads the sensors one after another. The two tasks are interleaved at the awaits of
a read and of a conversion; a failure of the bus cancels both and starts them again.

The times of the reads are left out, any located sensor may be read next. An exception inside
`_update` keeps what was done before it, so that it has the state as its error.

## Main definitions

* `MySensor`, `OwBus`: the sensors, and the bus with its poll.
* `OwBus.update`: `_update`.
* `Step`: the steps of the two tasks.
-/

namespace Evok

namespace W1

/-- A sensor: `sens` is its device of the last scan. -/
structure MySensor where
  circuit : String
  address : String
  sens : Option Slave := none
  lost : Bool := false
  deriving DecidableEq

namespace MySensor

/-- `set_lost`. -/
def setLost (sensor : MySensor) : MySensor :=
  { sensor with lost := true }

/-- The sensor without its device. -/
def lose (sensor : MySensor) : MySensor :=
  { sensor with sens := none, lost := true }

end MySensor

/-- What `poll` waits for; a group of thermometers is read after its conversion. -/
inductive Poll
  | sleeping
  | converting (group : List ℕ)
  | reading (sensor : ℕ) (sens : Slave) (group : List ℕ)
  deriving DecidableEq

/-- The bus; `found` are the slaves of its last completed scan. -/
structure OwBus where
  mysensors : List MySensor
  skipped : List String := []
  poll : Poll := .sleeping
  found : Option (List Slave) := none
  deriving DecidableEq

/-! ## Scanning -/

/-- The families with a sensor of `MySensorFabric`, and whether its circuit has the dots. -/
def fabric (family : BitVec 8) : Option Bool :=
  if family = 0x10 ∨ family = 0x28 ∨ family = 0x26 then some false
  else if family = 0x29 ∨ family = 0x12 ∨ family = 0x3A then some true
  else none

/-- `_find_sensor`: the first sensor with the key; an address before it may be an error. -/
def findSensor (key : String) : List MySensor → Option (Option ℕ)
  | [] => some none
  | sensor :: rest => do
    if (← addressKey sensor.address) = key then return some 0
    else return (← findSensor key rest).map (· + 1)

/-- The keys of the found slaves. -/
def foundKeys (names : List Slave) : Option (Dict String Slave) :=
  names.foldlM (fun found slave => do return found.set (← addressKey slave.name) slave) ∅

/-- The second part of `_update`: a sensor not found is lost. -/
def loseMissing (found : Dict String Slave) : List MySensor → Except (List MySensor) (List MySensor)
  | [] => .ok []
  | sensor :: rest =>
    match addressKey sensor.address with
    | none => .error (sensor :: rest)
    | some key =>
      let sensor := if key ∈ found then sensor else sensor.lose
      match loseMissing found rest with
      | .ok rest => .ok (sensor :: rest)
      | .error rest => .error (sensor :: rest)

namespace OwBus

/-- Change one sensor. -/
def modify (bus : OwBus) (i : ℕ) (f : MySensor → MySensor) : OwBus :=
  { bus with mysensors := bus.mysensors.modify i f }

/-- `_create_found` and the assignment of the device; `taken` are the circuits of other buses. -/
def createFound (taken : String → Bool) (slave : Slave) (bus : OwBus) : Except OwBus OwBus :=
  match owfsAddress slave.name with
  | none => .error bus
  | some address =>
    match addressKey address with
    | none => .error bus
    | some key =>
      if key ∈ bus.skipped then .ok bus
      else
        match fabric slave.family with
        | none => .ok { bus with skipped := key :: bus.skipped }
        | some dots =>
          let circuit :=
            if dots then address else String.ofList (address.toList.filter (· ≠ '.'))
          if taken circuit || bus.mysensors.any (·.circuit = circuit) then
            .ok { bus with skipped := key :: bus.skipped }
          else
            let sensor := { circuit := circuit, address := address, sens := some slave }
            .ok { bus with mysensors := bus.mysensors ++ [sensor] }

/-- The first part of `_update` for one slave. -/
def locate (taken : String → Bool) (bus : OwBus) (found : String × Slave) : Except OwBus OwBus :=
  let (key, slave) := found
  match findSensor key bus.mysensors with
  | none => .error bus
  | some (some i) =>
    .ok (bus.modify i fun sensor => { sensor with sens := sensor.sens.or (some slave) })
  | some none => bus.createFound taken slave

/-- `_update`. -/
def update (taken : String → Bool) (names : List Slave) (bus : OwBus) : Except OwBus OwBus :=
  match foundKeys names with
  | none => .error bus
  | some found => do
    let bus ← found.items.foldlM (locate taken) bus
    match loseMissing found bus.mysensors with
    | .ok mysensors => .ok { bus with mysensors := mysensors, found := some names }
    | .error mysensors => .error { bus with mysensors := mysensors }

/-! ## The poll -/

/-- The sensor has its device. -/
def located (bus : OwBus) (i : ℕ) : Bool :=
  bus.mysensors[i]?.any (·.sens.isSome)

/-- Start the next read; the read of a sensor without its device fails at once. -/
def readNext (bus : OwBus) : List ℕ → OwBus
  | [] => { bus with poll := .sleeping }
  | i :: group =>
    match bus.mysensors[i]?.bind (·.sens) with
    | some sens => { bus with poll := .reading i sens group }
    | none => (bus.modify i MySensor.setLost).readNext group

/-- What happens to the bus. -/
inductive Event
  | update (taken : String → Bool) (names : List Slave)
  | read (sensor : ℕ)
  | convert (group : List ℕ)
  | converted
  | notConverted (sensor : ℕ)
  | readDone (success : Bool)
  | restart

/-- The state after `_update`, also after an exception. -/
def updated (taken : String → Bool) (names : List Slave) (bus : OwBus) : OwBus :=
  match bus.update taken names with
  | .ok bus | .error bus => bus

/-- Every sensor is without its device and lost, both tasks start again. -/
def restarted (bus : OwBus) : OwBus :=
  { bus with mysensors := bus.mysensors.map MySensor.lose, poll := .sleeping }

/-- The end of a read. -/
def readDone (bus : OwBus) (sensor : ℕ) (success : Bool) (group : List ℕ) : OwBus :=
  (bus.modify sensor fun x => { x with lost := !success }).readNext group

/-- The steps of `scanning`, `poll` and `run_forever`. -/
inductive Step (bus : OwBus) : Event → OwBus → Prop
  | update (taken : String → Bool) (names : List Slave) :
    Step bus (.update taken names) (bus.updated taken names)
  | read {i : ℕ} (sleeping : bus.poll = .sleeping) (located : bus.located i) :
    Step bus (.read i) (bus.readNext [i])
  | convert {group : List ℕ} (sleeping : bus.poll = .sleeping) (nodup : group.Nodup)
      (located : ∀ i ∈ group, bus.located i) :
    Step bus (.convert group) { bus with poll := .converting group }
  | converted {group : List ℕ} (converting : bus.poll = .converting group) :
    Step bus .converted (bus.readNext group)
  | notConverted {group : List ℕ} {i : ℕ} (converting : bus.poll = .converting group)
      (member : i ∈ group) :
    Step bus (.notConverted i) (bus.readNext [i])
  | readDone {sensor : ℕ} {sens : Slave} {group : List ℕ} (success : Bool)
      (reading : bus.poll = .reading sensor sens group) :
    Step bus (.readDone success) (bus.readDone sensor success group)
  | restart : Step bus .restart bus.restarted

theorem Step.deterministic {bus t t' : OwBus} {event : Event} (h : Step bus event t)
    (h' : Step bus event t') : t = t' := by
  cases h with
  | update | read | convert | notConverted | restart => cases h'; rfl
  | converted converting =>
    cases h' with
    | converted converting' =>
      obtain rfl := Poll.converting.inj (converting.symm.trans converting')
      rfl
  | readDone success reading =>
    cases h' with
    | readDone _ reading' =>
      obtain ⟨rfl, rfl, rfl⟩ := Poll.reading.inj (reading.symm.trans reading')
      rfl

end OwBus

end W1

end Evok
