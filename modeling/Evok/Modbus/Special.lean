import Evok.Modbus.Digital

/-!
# Special devices

## Main definitions

* `OwPower`: the coil of the power of a 1-Wire bus.
* `NvSave`: the coil which saves the settings of the unit.
* `Watchdog`: the watchdog of the unit.
-/

namespace Evok

namespace Modbus

/-- The coil disables the power, the value is the last one written. -/
structure OwPower where
  circuit : String
  coil : ℕ

namespace OwPower

structure State where
  value : Bool := false
  /-- The value of the last check. -/
  checkedValue : Bool := false
  deriving DecidableEq

structure Params where
  value : Option PyValue := none
  aliasName : Option String := none

def full (d : OwPower) (s : State) (c : Common) : Full :=
  withCommon [("dev", .str "owpower"), ("circuit", .str d.circuit),
    ("value", .number (if s.value then 1 else 0))] c

def checkNewData (s : State) : State × Except CacheError Bool :=
  ({ s with checkedValue := s.value }, .ok (s.value ≠ s.checkedValue))

def set {ι : Type} (d : OwPower) (device : ι) (p : Params) : SetScript ι Unit := do
  SetScript.setAlias device p.aliasName
  if let some value := p.value then
    let value ← SetScript.ofExcept (toBool value)
    Script.emit (.writeCoil d.coil value)
    Script.emit (.assign device (.owPower value))

end OwPower

/-- The value is held at 1 for some time after the write. -/
structure NvSave where
  circuit : String
  coil : ℕ

namespace NvSave

/-- `value` is 1 while the timer of `hold_task` runs. -/
structure State where
  hold : Bool := false
  deriving DecidableEq

structure Params where
  value : Option PyValue := none
  aliasName : Option String := none

def full (d : NvSave) (s : State) (c : Common) : Full :=
  withCommon [("dev", .str "nv_save"), ("circuit", .str d.circuit),
    ("value", .number (if s.hold then 1 else 0))] c

/-- An error of the write ends the hold. -/
def set {ι : Type} (d : NvSave) (device : ι) (s : State) (p : Params) : SetScript ι Unit := do
  SetScript.setAlias device p.aliasName
  if let some value := p.value then
    if ← SetScript.ofExcept (toBool value) then
      if s.hold then
        throw (.value s!"NV save {d.circuit} is in progress, try it again later")
      Script.emit (.assign device (.nvSave true))
      Script.emit (.coilWithoutResponse d.coil (some device))

end NvSave

/-- The reset coil is -1 on a unit without it. -/
structure Watchdog where
  circuit : String
  majorGroup : String
  reg : ℕ
  timeoutReg : ℕ
  resetCoil : ℤ

namespace Watchdog

structure State where
  value : Option ℤ := none
  timeout : Option ℤ := none
  wasWdBootValue : Option ℤ := none
  deriving DecidableEq

structure Params where
  value : Option PyValue := none
  timeout : Option PyValue := none
  reset : Option PyValue := none
  nvSave : Option PyValue := none
  aliasName : Option String := none

def accessor (d : Watchdog) : Accessor :=
  { index := some d.reg, type := .uint16 }

def accessorTimeout (d : Watchdog) : Accessor :=
  { index := some d.timeoutReg, type := .uint16 }

def full (d : Watchdog) (s : State) (c : Common) : Full :=
  withCommon [("dev", .str "wd"), ("circuit", .str d.circuit), ("value", .ofInt s.value),
    ("timeout", .ofInt s.timeout), ("was_wd_reset", .ofInt s.wasWdBootValue)] c

/-- Bit 0 of the register enables the watchdog, bit 1 is a restart by the watchdog. -/
def checkNewData (d : Watchdog) (read : Reader) (s : State) : State × Except CacheError Bool :=
  let old := (s.value, s.wasWdBootValue, s.timeout)
  match d.accessor.readInt read with
  | .error e => (s, .error e)
  | .ok register =>
    let s := { s with
      value := register.map (· % 2)
      wasWdBootValue := register.map fun r => if r / 2 % 2 = 1 then 1 else 0 }
    match d.accessorTimeout.readInt read with
    | .error e => (s, .error e)
    | .ok timeout =>
      let s := { s with timeout }
      (s, .ok (old ≠ (s.value, s.wasWdBootValue, s.timeout)))

/-- `timeout` of the params. -/
def parseTimeout (d : Watchdog) (timeout : PyValue) : Except SetError ℤ := do
  let number ← toFloat timeout
  if ⌊number⌋ ≠ number ∨ number < 0 then throw (.value
    s!"WD {d.circuit}: timeout must be a whole number of ms >= 0, not {timeout}")
  return min ⌊number⌋ 65535

/-- The checked params of a `set()`. -/
structure Parsed where
  value : Option Bool
  timeout : Option ℤ
  reset : Bool

/-- The checks before any change. -/
def parse (d : Watchdog) (p : Params) : Except SetError Parsed := do
  if p.nvSave.isSome then throw (.value
    s!"WD {d.circuit}: nv_save is deprecated and not supported, use the device nv_save {d.majorGroup}")
  let value ← p.value.mapM toBool
  let timeout ← p.timeout.mapM d.parseTimeout
  let reset ← if 0 ≤ d.resetCoil then p.reset.mapM toBool else pure none
  return ⟨value, timeout, reset.getD false⟩

def set {ι : Type} (d : Watchdog) (device : ι) (p : Params) : SetScript ι Unit := do
  let parsed ← SetScript.ofExcept (d.parse p)
  SetScript.setAlias device p.aliasName
  if let some value := parsed.value then d.accessor.write (if value then 1 else 0)
  if let some timeout := parsed.timeout then d.accessorTimeout.write timeout
  if parsed.reset then Script.emit (.coilWithoutResponse d.resetCoil.toNat none)

end Watchdog

end Modbus

end Evok
