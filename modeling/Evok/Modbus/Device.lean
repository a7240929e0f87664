import Evok.Modbus.Analog
import Evok.Modbus.Special
import Mathlib.Logic.Function.Basic

/-!
# Devices of a unit

The attributes of a device are a type of its class, so a state of another class cannot be built.

## Main definitions

* `Device`: a device of a Modbus unit with its constructor arguments.
* `Attrs`: the attributes of all devices of a unit.
* `Device.set`, `Device.checkNewData`, `Device.full`: the methods of the classes.
-/

namespace Evok

namespace Modbus

inductive Device
  | binaryOutput (d : BinaryOutput)
  | digitalOutput (d : DigitalOutput)
  | digitalInput (d : DigitalInput)
  | analog (d : AnalogIO)
  | dataPoint (d : DataPoint)
  | owPower (d : OwPower)
  | nvSave (d : NvSave)
  | watchdog (d : Watchdog)

namespace Device

/-- The attributes of a device. -/
abbrev State : Device → Type
  | binaryOutput _ => BinaryOutput.State
  | digitalOutput _ => DigitalOutput.State
  | digitalInput _ => DigitalInput.State
  | analog _ => AnalogIO.State
  | dataPoint _ => DataPoint.State
  | owPower _ => OwPower.State
  | nvSave _ => NvSave.State
  | watchdog _ => Watchdog.State

/-- The keyword arguments of `set()`. -/
abbrev Params : Device → Type
  | binaryOutput _ => BinaryOutput.Params
  | digitalOutput _ => DigitalOutput.Params
  | digitalInput _ => DigitalInput.Params
  | analog _ => AnalogIO.Params
  | dataPoint _ => DataPoint.Params
  | owPower _ => OwPower.Params
  | nvSave _ => NvSave.Params
  | watchdog _ => Watchdog.Params

/-- The attributes after the constructor. -/
def init : (d : Device) → d.State
  | binaryOutput _ => {}
  | digitalOutput _ => {}
  | digitalInput _ => {}
  | analog d => d.init
  | dataPoint _ => {}
  | owPower _ => {}
  | nvSave _ => {}
  | watchdog _ => {}

/-- The identity of the PWM frequency of an output. -/
def pwmId : Device → Option ℕ
  | digitalOutput d => d.pwm.map (·.1)
  | _ => none

/-- The class has `check_new_data()`. -/
def checks : Device → Bool
  | nvSave _ => false
  | _ => true

def full : (d : Device) → d.State → Common → Full
  | binaryOutput d, s, c => d.full s c
  | digitalOutput d, s, c => d.full s c
  | digitalInput d, s, c => d.full s c
  | analog d, s, c => d.full s c
  | dataPoint d, s, c => d.full s c
  | owPower d, s, c => d.full s c
  | nvSave d, s, c => d.full s c
  | watchdog d, s, c => d.full s c

/-- `check_new_data()` with the PWM frequency of an output. -/
def checkNewData (read : Reader) (p : PwmState) : (d : Device) → d.State →
    (PwmState × d.State) × Except CacheError Bool
  | binaryOutput d, s => ((p, (d.checkNewData read s).1), (d.checkNewData read s).2)
  | digitalOutput d, s => d.checkNewData read p s
  | digitalInput d, s => ((p, (d.checkNewData read s).1), (d.checkNewData read s).2)
  | analog d, s => ((p, (d.checkNewData read s).1), (d.checkNewData read s).2)
  | dataPoint d, s => ((p, (d.checkNewData read s).1), (d.checkNewData read s).2)
  | owPower _, s => ((p, (OwPower.checkNewData s).1), (OwPower.checkNewData s).2)
  | nvSave _, s => ((p, s), .ok false)
  | watchdog d, s => ((p, (d.checkNewData read s).1), (d.checkNewData read s).2)

/-- `set()` of the device `i`, with the PWM frequency and the other outputs of the unit. -/
def set {ι : Type} [DecidableEq ι] (i : ι) (p : PwmState) (outputs : List (DigitalOutput.Entry ι)) :
    (d : Device) → d.State → d.Params → SetScript ι Unit
  | binaryOutput d, _, params => d.set i params
  | digitalOutput d, s, params => d.set i s p outputs params
  | digitalInput d, s, params => d.set i s.toAttrs params
  | analog d, s, params => d.set i s params
  | dataPoint d, _, params => d.set i params
  | owPower d, _, params => d.set i params
  | nvSave d, s, params => d.set i s params
  | watchdog d, _, params => d.set i params

/-- An assignment of attributes by a `set()`. -/
def assign : Assign → (d : Device) → d.State → d.State
  | .pwmDuty duty, digitalOutput _, s => { s with pwmDuty := some duty }
  | .pwmDutyVal raw, digitalOutput _, s => { s with pwmDutyVal := some raw }
  | .counterMode counterMode, digitalInput _, s => { s with counterMode }
  | .dsMode dsMode, digitalInput _, s => { s with dimode := { s.dimode with dsMode } }
  | .mode mode, digitalInput _, s => { s with dimode := { s.dimode with mode } }
  | .owPower value, owPower _, s => { s with value }
  | .nvSave hold, nvSave _, _ => { hold }
  | _, _, s => s

/-- `counter = read_counter()` of an input. -/
def readCounter (read : Reader) : (d : Device) → d.State → d.State × Except CacheError Unit
  | digitalInput d, s =>
    match d.readCounter read s.toAttrs with
    | .ok counter => ({ s with counter }, .ok ())
    | .error e => (s, .error e)
  | _, s => (s, .ok ())

/-- The accessors of the state of a device, `device_registers`. -/
def registers : (d : Device) → d.State → List (ℕ × Bool)
  | binaryOutput d, _ => d.accessor.registers
  | digitalOutput d, _ => d.accessor.registers
  | digitalInput d, _ => d.accessor.registers
  | analog d, s =>
    match d.kind with
    | .brain _ => s.accessor.registers ++ d.aoAccessor.registers ++ d.resAccessor.registers
    | _ => s.accessor.registers
  | dataPoint d, _ => d.accessor.registers
  | owPower _, _ | nvSave _, _ => []
  | watchdog d, _ => d.accessor.registers

end Device

/-! ## The devices of a unit -/

section

variable {ι : Type} [DecidableEq ι]

/-- The attributes of the devices of a unit. -/
structure Attrs (device : ι → Device) where
  dev : ∀ i, (device i).State
  pwm : ℕ → PwmState
  aliasName : ι → String

namespace Attrs

variable {device : ι → Device}

/-- The outputs of a unit, in the order of its devices. -/
def outputs (ids : List ι) (s : Attrs device) : List (DigitalOutput.Entry ι) :=
  ids.filterMap fun i =>
    match device i, s.dev i with
    | .digitalOutput d, state => some (i, d, state)
    | _, _ => none

/-- The PWM frequency of a device. -/
def pwmOf (s : Attrs device) (i : ι) : PwmState :=
  ((device i).pwmId.map s.pwm).getD {}

def setDev (s : Attrs device) (i : ι) (state : (device i).State) : Attrs device :=
  { s with dev := Function.update s.dev i state }

def setPwm (s : Attrs device) (id : ℕ) (state : PwmState) : Attrs device :=
  { s with pwm := Function.update s.pwm id state }

/-- `set()` of a device of the unit. -/
def set (ids : List ι) (s : Attrs device) (i : ι) (params : (device i).Params) :
    SetScript ι Unit :=
  (device i).set i (s.pwmOf i) (s.outputs ids) (s.dev i) params

/-- `check_new_data()` of a device of the unit. -/
def checkNewData (read : Reader) (s : Attrs device) (i : ι) :
    Attrs device × Except CacheError Bool :=
  let ((p, state), result) := (device i).checkNewData read (s.pwmOf i) (s.dev i)
  let s := s.setDev i state
  match (device i).pwmId with
  | some id => (s.setPwm id p, result)
  | none => (s, result)

/-- The attributes after an action of `set()`; a request changes none. -/
def exec (read : Reader) (s : Attrs device) : Action ι → Attrs device
  | .assign i a => s.setDev i ((device i).assign a (s.dev i))
  | .assignPwm id state => s.setPwm id state
  | .readCounter i => s.setDev i ((device i).readCounter read (s.dev i)).1
  | .setAlias i name => { s with aliasName := Function.update s.aliasName i name }
  | _ => s

/-- The attributes after an action which raises. -/
def fails (s : Attrs device) : Action ι → Attrs device
  | .coilWithoutResponse _ (some i) => s.setDev i ((device i).assign (.nvSave false) (s.dev i))
  | _ => s

end Attrs

end

end Modbus

end Evok
