import Evok.W1.Bus

/-!
# The times of the 1-Wire poll

`poll` sleeps until the smallest time of the located sensors, or until `wake`, and reads the due
sensor with the smallest time, or all thermometers due in the half of their interval after one
conversion. After a read a sensor waits its interval, a lost one longer and longer.

The scans and the requests come at any moment between the steps of the poll. A restart of the bus
waits before its next scan; no sensor has a device then, so that the wait is left out.

## Main definitions

* `Timing`: the interval and the time of a sensor.
* `PollState`: a bus with the times of its sensors.
* `PollState.Step`: the steps of the poll, of the scans and of the requests, in any order.
-/

namespace Evok

namespace W1

/-- `MAX_LOSTINTERVAL`, in seconds. -/
def maxLostInterval : ℕ := 300

/-- `interval`, `lostinterval` and `time` of a sensor. -/
structure Timing where
  interval : ℕ
  lostInterval : ℕ := 0
  time : ℚ := 0

namespace Timing

/-- `set_lost` of a sensor which is not lost. -/
def lose (t : Timing) : Timing :=
  { t with lostInterval := t.interval }

/-- The next read is after `calc_interval()`. -/
def next (t : Timing) (lost : Bool) (now : ℚ) : Timing :=
  if lost then
    let lostInterval := min (2 * t.lostInterval) maxLostInterval
    { t with lostInterval, time := now + lostInterval }
  else { t with time := now + t.interval }

end Timing

/-- `_is_thermometer`, by the family of the device. -/
def Slave.isThermometer (slave : Slave) : Bool :=
  slave.family ∈ ([0x10, 0x22, 0x28, 0x3B, 0x42] : List (BitVec 8))

namespace OwBus

def lost (bus : OwBus) (i : ℕ) : Bool :=
  bus.mysensors[i]?.any (·.lost)

/-- A located thermometer. -/
def isThermometer (bus : OwBus) (i : ℕ) : Bool :=
  (bus.mysensors[i]?.bind (·.sens)).any (·.isThermometer)

/-- The sensors which got a device. -/
def newlyLocated (before after : OwBus) : List ℕ :=
  (List.range after.mysensors.length).filter fun i => after.located i && !before.located i

/-- The timing of the sensors which are lost by a change of the bus. -/
def timing (before after : OwBus) (timing : ℕ → Timing) (i : ℕ) : Timing :=
  if after.lost i && !before.lost i then (timing i).lose else timing i

end OwBus

/-- The bus and the times of its sensors; `wakeup` is the end of `_sleep`, `converter` the sensor
for which the thermometers are converted. -/
structure PollState where
  bus : OwBus
  timing : ℕ → Timing
  interval : ℕ
  now : ℚ := 0
  wakeup : ℚ := 0
  converter : ℕ := 0

namespace PollState

/-! ## The poll -/

/-- The end of `read_sensor`, and the next time of the sensor. -/
def finish (s : PollState) (i : ℕ) (success : Bool) : PollState :=
  let t := if !success && !s.bus.lost i then (s.timing i).lose else s.timing i
  { s with
    bus := s.bus.modify i fun x => { x with lost := !success }
    timing := Function.update s.timing i (t.next (!success) s.now) }

/-- Start the next read; the read of a sensor without its device fails at once. -/
def readNext (s : PollState) : List ℕ → PollState
  | [] => { s with bus := { s.bus with poll := .sleeping }, wakeup := s.now }
  | i :: group =>
    match s.bus.mysensors[i]?.bind (·.sens) with
    | some sens => { s with bus := { s.bus with poll := .reading i sens group } }
    | none => (s.finish i false).readNext group

/-- `min(located, key=lambda x: x.time)` is due. -/
structure Next (s : PollState) (i : ℕ) : Prop where
  located : s.bus.located i
  le : ∀ j, s.bus.located j → (s.timing i).time ≤ (s.timing j).time
  first : ∀ j < i, s.bus.located j → (s.timing i).time < (s.timing j).time
  due : (s.timing i).time ≤ s.now

/-- The thermometers which are converted together. -/
def group (s : PollState) : List ℕ :=
  (List.range s.bus.mysensors.length).filter fun i =>
    s.bus.isThermometer i && (s.timing i).time - s.now ≤ (s.timing i).interval / 2

/-- The times of the located sensors. -/
def times (s : PollState) : List ℚ :=
  ((List.range s.bus.mysensors.length).filter (s.bus.located ·)).map fun i => (s.timing i).time

/-- The end of the sleep which starts now. -/
def deadline (s : PollState) : ℚ :=
  s.times.min?.getD (s.now + s.interval)

/-- `wake` ends the sleep. -/
def wake (s : PollState) : PollState :=
  { s with wakeup := min s.wakeup s.now }

/-! ## The scans and the requests -/

/-- The timing before a scan, also of the sensors which it creates. -/
def created (s : PollState) (i : ℕ) : Timing :=
  if i < s.bus.mysensors.length then s.timing i else { interval := s.interval }

/-- A new device is read at once. -/
def scanned (s : PollState) (bus : OwBus) : PollState :=
  let found := s.bus.newlyLocated bus
  let timing := s.bus.timing bus s.created
  let s := { s with
    bus, timing := fun i => if i ∈ found then { timing i with time := 0 } else timing i }
  if found = [] then s else s.wake

/-- `OwBusDriver.set` of an interval: all sensors are read at once. -/
def setInterval (s : PollState) (interval : ℕ) : PollState :=
  { s with interval, timing := fun i => { s.timing i with interval, time := 0 } }.wake

/-- `MySensor.set`: the next read is after the new interval. -/
def setSensorInterval (s : PollState) (i interval : ℕ) : PollState :=
  let t := { s.timing i with interval }
  { s with timing := Function.update s.timing i (t.next (s.bus.lost i) s.now) }.wake

/-- `run_forever` after a failure. -/
def restarted (s : PollState) : PollState :=
  { s with
    bus := s.bus.restarted, timing := s.bus.timing s.bus.restarted s.timing, wakeup := s.now }

/-! ## The steps -/

inductive Event
  | tick (now : ℚ)
  | sleep
  /-- A sensor is read alone. -/
  | read (sensor : ℕ)
  | convert (sensor : ℕ) (group : List ℕ)
  | converted
  /-- The conversion failed, the sensor is read alone. -/
  | notConverted (sensor : ℕ)
  | readDone (sensor : ℕ) (success : Bool)
  /-- A scan, with the sensors which got a device. -/
  | scan (taken : String → Bool) (names : List Slave) (found : List ℕ)
  | setInterval (interval : ℕ)
  | setSensorInterval (sensor interval : ℕ)
  | restart

/-- The steps of `poll`, of `_update` and of the two `set`. -/
inductive Step (s : PollState) : Event → PollState → Prop
  | tick {now : ℚ} (later : s.now ≤ now) : Step s (.tick now) { s with now }
  | sleep (sleeping : s.bus.poll = .sleeping) (awake : s.wakeup ≤ s.now)
      (early : ∀ i, s.bus.located i → s.now < (s.timing i).time) :
    Step s .sleep { s with wakeup := s.deadline }
  | read {i : ℕ} (sleeping : s.bus.poll = .sleeping) (awake : s.wakeup ≤ s.now) (next : s.Next i) :
    Step s (.read i) (s.readNext [i])
  | convert {i : ℕ} (sleeping : s.bus.poll = .sleeping) (awake : s.wakeup ≤ s.now) (next : s.Next i)
      (thermometer : s.bus.isThermometer i) (several : 1 < s.group.length) :
    Step s (.convert i s.group)
      { s with bus := { s.bus with poll := .converting s.group }, converter := i }
  | converted {group : List ℕ} (converting : s.bus.poll = .converting group) :
    Step s .converted (s.readNext group)
  | notConverted {group : List ℕ} (converting : s.bus.poll = .converting group) :
    Step s (.notConverted s.converter) (s.readNext [s.converter])
  | readDone {sensor : ℕ} {sens : Slave} {group : List ℕ} (success : Bool)
      (reading : s.bus.poll = .reading sensor sens group) :
    Step s (.readDone sensor success) ((s.finish sensor success).readNext group)
  | scan (taken : String → Bool) (names : List Slave) :
    Step s (.scan taken names (s.bus.newlyLocated (s.bus.updated taken names)))
      (s.scanned (s.bus.updated taken names))
  | setInterval {interval : ℕ} (positive : 0 < interval) (changed : interval ≠ s.interval) :
    Step s (.setInterval interval) (s.setInterval interval)
  | setSensorInterval {i interval : ℕ} (exist : i < s.bus.mysensors.length)
      (positive : 0 < interval) :
    Step s (.setSensorInterval i interval) (s.setSensorInterval i interval)
  | restart : Step s .restart s.restarted

/-- A bus with its configured sensors, before its first scan. -/
structure Init (s : PollState) : Prop where
  sensors : ∀ x ∈ s.bus.mysensors, x.sens = none ∧ x.lost = false
  poll : s.bus.poll = .sleeping
  interval : 0 < s.interval
  sensorInterval : ∀ i, 0 < (s.timing i).interval

/-! ## The bus without the times -/

theorem bus_readNext (s : PollState) (group : List ℕ) :
    (s.readNext group).bus = s.bus.readNext group := by
  induction group generalizing s with
  | nil => rfl
  | cons i group ih =>
    unfold readNext OwBus.readNext
    cases s.bus.mysensors[i]?.bind (·.sens) with
    | some sens => rfl
    | none => exact ih _

/-- The end of a read of the sensor. -/
def Event.isReadOf (j : ℕ) : Event → Bool
  | .readDone sensor _ => sensor = j
  | _ => false

/-- A scan which finds a device or a new interval of the bus: sensors are read at once. -/
def Event.resets : Event → Bool
  | .scan _ _ found => !found.isEmpty
  | .setInterval _ => true
  | _ => false

/-- The event of the bus; a request changes only the times. -/
def Event.onBus : Event → Option OwBus.Event
  | .read i => some (.read i)
  | .convert _ group => some (.convert group)
  | .converted => some .converted
  | .notConverted i => some (.notConverted i)
  | .readDone _ success => some (.readDone success)
  | .scan taken names _ => some (.update taken names)
  | .restart => some .restart
  | _ => none

end PollState

end W1

end Evok
