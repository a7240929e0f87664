import Evok.Modbus.Values
import Evok.Library.Script

/-!
# Actions of the setting of a device

`set()` of a device reads only attributes which nothing else changes while it runs, so it is a
script: its requests to the unit, its changes of the cache and of attributes, in order.

## Main definitions

* `Action`: one action of `set()`.
* `SetScript`: a script of actions with the exceptions of `set()`.
-/

namespace Evok

namespace Modbus

/-- The attributes of a PWM frequency, `cycle` and `prescale` of the hardware one. -/
structure PwmState where
  freq : Option ℚ := none
  cycle : Option ℕ := none
  prescale : Option ℕ := none
  deriving DecidableEq

/-- An assignment of attributes of a device by a `set()`. -/
inductive Assign
  | pwmDuty (duty : ℚ)
  | pwmDutyVal (raw : ℤ)
  | counterMode (mode : String)
  | dsMode (mode : String)
  | mode (mode : String)
  | owPower (value : Bool)
  /-- The value of `NvSave`, with its hold timer. -/
  | nvSave (hold : Bool)
  deriving DecidableEq

/-- An action on the unit of the devices `ι`. -/
inductive Action (ι : Type)
  | writeCoil (coil : ℕ) (value : Bool)
  | writeRegisters (index : ℕ) (values : List Word) (cache pin : Bool)
  /-- The read-modify-write of the masked bits of a register. -/
  | writeBit (index : ℕ) (mask : Word) (value pin : Bool)
  /-- `cache.set_register` after the writes of a setting. -/
  | setRegister (index : ℕ) (values : List Word)
  /-- A write after which the unit may not respond; an error ends the hold of the `NvSave`. -/
  | coilWithoutResponse (coil : ℕ) (holder : Option ι)
  | assign (device : ι) (a : Assign)
  | assignPwm (pwm : ℕ) (state : PwmState)
  /-- `counter = read_counter()` of an input. -/
  | readCounter (device : ι)
  | setAlias (device : ι) (name : String)
  deriving DecidableEq

/-- A part of `set()` of a device. -/
abbrev SetScript (ι α : Type) := Script (Action ι) SetError α

namespace SetScript

variable {ι α : Type}

/-- A check or a conversion of a parameter. -/
def ofExcept : Except SetError α → SetScript ι α
  | .ok a => pure a
  | .error e => throw e

/-- `set_alias` of the device. -/
def setAlias (device : ι) : Option String → SetScript ι Unit
  | some name => Script.emit (.setAlias device name)
  | none => pure ()

end SetScript

end Modbus

end Evok
