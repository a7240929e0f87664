import Evok.Modbus.Pwm
import Evok.Modbus.Iomode

/-!
# Digital devices

Each class has its constructor arguments, its attributes, `check_new_data()`, `full()` and
`set()`. A check which raises keeps the attributes it has changed before.

## Main definitions

* `BinaryOutput`: a relay or an LED, the base of the digital outputs.
* `DigitalOutput`: an output with a PWM.
* `DigitalInput`: an input with a counter and a mode.
-/

namespace Evok

namespace Modbus

/-- The items of all states, from the unit and from the alias of the device. -/
structure Common where
  comm : String
  lastComm : Option ℚ
  aliasName : String

/-- `_with_common` of a state. -/
def withCommon (ret : Full) (c : Common) : Full :=
  ret ++ [("comm", .str c.comm), ("last_comm", .ofNumber c.lastComm)] ++
    if c.aliasName ≠ "" then [("alias", .str c.aliasName)] else []

def Value.strings (names : List String) : Value :=
  .list (names.map .str)

def Value.ofInt (value : Option ℤ) : Value :=
  .ofNumber (value.map fun n => n)

/-! ## Binary outputs -/

structure BinaryOutput where
  devtype : String
  circuit : String
  coil : Option ℕ
  reg : ℕ
  mask : Word

namespace BinaryOutput

structure State where
  value : Option ℤ := none
  deriving DecidableEq

structure Params where
  value : Option PyValue := none
  aliasName : Option String := none

def accessor (d : BinaryOutput) : Accessor :=
  { index := some d.reg, type := .bit d.mask }

def state (d : BinaryOutput) (s : State) : Full :=
  [("dev", .str d.devtype), ("circuit", .str d.circuit), ("value", .ofInt s.value)]

def full (d : BinaryOutput) (s : State) (c : Common) : Full :=
  withCommon (d.state s) c

def checkNewData (d : BinaryOutput) (read : Reader) (s : State) :
    State × Except CacheError Bool :=
  match d.accessor.readInt read with
  | .error e => (s, .error e)
  | .ok value => (⟨value⟩, .ok (s.value ≠ value))

section Set

variable {ι : Type}

/-- Write the value to the coil, or to the bit of the register of an output without a coil. -/
def writeValue (d : BinaryOutput) (value : Bool) : SetScript ι Unit :=
  match d.coil with
  | some coil => Script.emit (.writeCoil coil value)
  | none => Script.emit (.writeBit d.reg d.mask value true)

def set (d : BinaryOutput) (device : ι) (p : Params) : SetScript ι Unit := do
  if let some value := p.value then
    d.writeValue (← SetScript.ofExcept (toBool value))
  SetScript.setAlias device p.aliasName

end Set

end BinaryOutput

/-! ## Digital outputs -/

/-- An output; `pwm` is the frequency shared by its group, with its identity. -/
structure DigitalOutput extends BinaryOutput where
  modes : List String := ["Simple"]
  pwm : Option (ℕ × PwmFrequency) := none
  pwmDutyReg : ℕ := 0

namespace DigitalOutput

structure State extends BinaryOutput.State where
  pwmDuty : Option ℚ := none
  pwmDutyVal : Option ℤ := none
  pwmFreq : Option ℚ := none
  mode : Option String := none
  deriving DecidableEq

structure Params extends BinaryOutput.Params where
  mode : Option String := none
  pwmFreq : Option PyValue := none
  pwmDuty : Option PyValue := none

def accessorPwmDuty (d : DigitalOutput) : Accessor :=
  if d.pwm.isSome then { index := some d.pwmDutyReg, type := .uint16 } else .none

/-- The PWM of the output is on: `if self.pwm_duty`. -/
def State.pwmOn (s : State) : Bool :=
  s.pwmDuty.any (· ≠ 0)

/-- The mode of the API by the duty. -/
def State.dutyMode (s : State) : String :=
  if s.pwmOn then "PWM" else "Simple"

def full (d : DigitalOutput) (s : State) (c : Common) : Full :=
  withCommon (d.state s.toState ++ [("mode", .ofString s.mode), ("modes", .strings d.modes),
    ("pwm_freq", .ofNumber s.pwmFreq), ("pwm_duty", .ofNumber s.pwmDuty)]) c

/-- Read the frequency and the duty from the cache. -/
def checkPwm (d : DigitalOutput) (read : Reader) (p : PwmState) (s : State) :
    (PwmState × State) × Except CacheError Bool :=
  match d.pwm with
  | none => ((p, s), .ok false)
  | some (_, pwm) =>
    match pwm.update read p with
    | (p, .error e) => ((p, s), .error e)
    | (p, .ok _) =>
      let old := (s.pwmFreq, s.pwmDuty)
      let s := { s with pwmFreq := p.freq }
      match d.accessorPwmDuty.readInt read with
      | .error e => ((p, s), .error e)
      | .ok raw =>
        let s := { s with pwmDutyVal := raw, pwmDuty := raw.map (pwm.duty p) }
        ((p, s), .ok (old ≠ (s.pwmFreq, s.pwmDuty)))

def checkNewData (d : DigitalOutput) (read : Reader) (p : PwmState) (s : State) :
    (PwmState × State) × Except CacheError Bool :=
  match d.checkPwm read p s with
  | (ps, .error e) => (ps, .error e)
  | ((p, s), .ok isChange) =>
    let s := { s with mode := some s.dutyMode }
    match d.toBinaryOutput.checkNewData read s.toState with
    | (_, .error e) => ((p, s), .error e)
    | (b, .ok changed) => ((p, { s with toState := b }), .ok (changed || isChange))

section Set

variable {ι : Type}

/-- An output of a unit with its attributes. -/
abbrev Entry (ι : Type) := ι × DigitalOutput × State

/-- Keep the duty cycle of one output at a new frequency. -/
def keepDuty (pwm : PwmFrequency) (p : PwmState) : Entry ι → SetScript ι Unit
  | (device, d, s) => do
    if s.pwmOn then
      let raw ← SetScript.ofExcept (pwm.dutyRaw p (s.pwmDuty.getD 0))
      if some raw ≠ s.pwmDutyVal then
        d.accessorPwmDuty.write raw
        Script.emit (.assign device (.pwmDutyVal raw))

/-- Keep the duty cycles of the outputs, one after another. -/
def keepDuties (pwm : PwmFrequency) (p : PwmState) : List (Entry ι) → SetScript ι Unit
  | [] => pure ()
  | entry :: entries => do
    keepDuty pwm p entry
    keepDuties pwm p entries

/-- Set the frequency shared by the group, of this output with `keep` only. -/
def setPwmFreq [DecidableEq ι] (device : ι) (id : ℕ) (pwm : PwmFrequency) (p : PwmState)
    (outputs : List (Entry ι)) (freq : ℚ) (keep : Bool) : SetScript ι PwmState := do
  let p ← pwm.set id p freq
  keepDuties pwm p <| outputs.filter fun (other, d, _) =>
    d.pwm.any (·.1 = id) && (keep || other ≠ device)
  return p

/-- `pwm_duty` of the params. -/
def parseDuty (d : DigitalOutput) : Option PyValue → Except SetError (Option ℚ)
  | none => .ok none
  | some value => do
    let duty ← toFloat value
    if ¬(0 ≤ duty ∧ duty ≤ 100) then
      throw (.value s!"DO {d.circuit}: pwm_duty {duty} is out of range <0..100>")
    return some duty

/-- `pwm_freq` of the params. -/
def parseFreq (d : DigitalOutput) : Option PyValue → Except SetError (Option ℚ)
  | none => .ok none
  | some value => do
    let freq ← toFloat value
    if freq ≤ 0 then throw (.value s!"DO {d.circuit}: pwm_freq {freq} must be positive")
    return some freq

/-- The checked params of a `set()`. -/
structure Parsed where
  value : Option Bool
  pwmDuty : Option ℚ
  pwmFreq : Option ℚ

/-- The checks before any write. -/
def parse (d : DigitalOutput) (params : Params) : Except SetError Parsed := do
  let value ← params.value.mapM toBool
  let pwmDuty ← d.parseDuty params.pwmDuty
  let pwmFreq ← d.parseFreq params.pwmFreq
  if d.pwm.isNone ∧ (pwmDuty.isSome ∨ pwmFreq.isSome) then
    throw (.value s!"DO {d.circuit}: PWM is not supported")
  if let (some value, some duty) := (value, pwmDuty) then
    if ¬(duty = 100 ∧ value ∨ duty = 0 ∧ ¬value) then
      throw (.value "Set value conflict: Cannot set both value and pwm_duty at once.")
  return ⟨value, pwmDuty, pwmFreq⟩

/-- The writes of checked params. -/
def apply [DecidableEq ι] (d : DigitalOutput) (device : ι) (s : State) (p : PwmState)
    (outputs : List (Entry ι)) (parsed : Parsed) : SetScript ι Unit := do
  let p ← match d.pwm, parsed.pwmFreq with
    | some (id, pwm), some freq =>
      setPwmFreq device id pwm p outputs freq (parsed.value.isNone && parsed.pwmDuty.isNone)
    | _, _ => pure p
  match parsed.value, parsed.pwmDuty, d.pwm with
  | some value, _, _ =>
    d.writeValue value
    if s.pwmOn then
      Script.emit (.assign device (.pwmDuty 0))
      d.accessorPwmDuty.write 0
  | none, some duty, some (_, pwm) =>
    if s.value ≠ some 0 then d.writeValue false
    d.accessorPwmDuty.write (← SetScript.ofExcept (pwm.dutyRaw p duty))
  | _, _, _ => pure ()

/-- `outputs` are the outputs of the unit, `Devices.by_name(DO, major_group)`. -/
def set [DecidableEq ι] (d : DigitalOutput) (device : ι) (s : State) (p : PwmState)
    (outputs : List (Entry ι)) (params : Params) : SetScript ι Unit := do
  let parsed ← SetScript.ofExcept (d.parse params)
  d.apply device s p outputs parsed
  SetScript.setAlias device params.aliasName

end Set

end DigitalOutput

/-! ## Digital inputs -/

structure DigitalInput where
  circuit : String
  reg : ℕ
  mask : Word
  regcounter : Option ℕ := none
  regdebounce : Option ℕ := none
  regmode : Option ℕ := none
  regtoggle : Option ℕ := none
  regpolarity : Option ℕ := none
  modes : List String := ["Simple"]
  dsModes : List String := ["Simple"]
  counterModes : List String := ["Enabled", "Disabled"]

namespace DigitalInput

/-- The attributes compared by a check. -/
structure Attrs where
  value : Option ℤ := none
  counter : Option ℤ := none
  debounce : Option ℤ := none
  counterMode : String := "Enabled"
  dimode : DIMode.State := {}
  deriving DecidableEq

structure State extends Attrs where
  scannedState : Option Attrs := none
  deriving DecidableEq

structure Params where
  debounce : Option PyValue := none
  mode : Option String := none
  counter : Option PyValue := none
  counterMode : Option String := none
  dsMode : Option String := none
  aliasName : Option String := none

def dimode (d : DigitalInput) : DIMode :=
  { bitmask := d.mask
    regmode := d.regmode
    regpolarity := d.regpolarity
    regtoggle := d.regtoggle
    modes := d.modes
    dsModes := d.dsModes
    name := s!"DI {d.circuit}" }

def accessor (d : DigitalInput) : Accessor :=
  { index := some d.reg, type := .bit d.mask }

def accessorCounter (d : DigitalInput) : Accessor :=
  match d.regcounter with
  | some index => { index := some index, type := .uint32 .little, pin := false }
  | none => .none

def accessorDebounce (d : DigitalInput) : Accessor :=
  .ofRegister .uint16 d.regdebounce

def fullOf (d : DigitalInput) (s : Attrs) (c : Common) : Full :=
  withCommon ([("dev", .str "di"), ("circuit", .str d.circuit), ("value", .ofInt s.value),
    ("debounce", .ofInt s.debounce), ("counter_modes", .strings d.counterModes),
    ("counter_mode", .str s.counterMode), ("counter", .ofInt s.counter),
    ("mode", .str s.dimode.mode), ("modes", .strings d.modes)] ++
    if s.dimode.mode = "DirectSwitch" then
      [("ds_mode", .str s.dimode.dsMode), ("ds_modes", .strings d.dsModes)]
    else []) c

def full (d : DigitalInput) (s : State) (c : Common) : Full :=
  d.fullOf s.toAttrs c

def readCounter (d : DigitalInput) (read : Reader) (s : Attrs) : Except CacheError (Option ℤ) :=
  if s.counterMode = "Enabled" then d.accessorCounter.readInt read else .ok (some 0)

/-- Read the attributes from the cache. -/
def readAttrs (d : DigitalInput) (read : Reader) (s : Attrs) : Attrs × Except CacheError Unit :=
  match d.dimode.update read s.dimode with
  | (dimode, .error e) => ({ s with dimode }, .error e)
  | (dimode, .ok _) =>
    let s := { s with dimode }
    match d.accessor.readInt read with
    | .error e => (s, .error e)
    | .ok value =>
      let s := { s with value }
      match d.readCounter read s with
      | .error e => (s, .error e)
      | .ok counter =>
        let s := { s with counter }
        match d.accessorDebounce.readInt read with
        | .error e => (s, .error e)
        | .ok debounce => ({ s with debounce }, .ok ())

/-- Compare with the state of the previous scan. -/
def checkNewData (d : DigitalInput) (read : Reader) (s : State) : State × Except CacheError Bool :=
  match d.readAttrs read s.toAttrs with
  | (attrs, .error e) => ({ s with toAttrs := attrs }, .error e)
  | (attrs, .ok ()) => (⟨attrs, some attrs⟩, .ok (some attrs ≠ s.scannedState))

section Set

variable {ι : Type}

/-- An integer in the range of the register. -/
def registerValue (d : DigitalInput) (name : String) (value : PyValue) (a : Accessor) :
    Except SetError ℤ := do
  if a.index.isNone then throw (.value s!"DI {d.circuit}: {name} is not supported")
  let number ← toFloat value
  if ⌊number⌋ ≠ number then
    throw (.value s!"DI {d.circuit}: {name} {value} must be an integer")
  let (low, high) := a.type.rawRange.getD (0, 0)
  if ¬(low ≤ number ∧ number ≤ high) then
    throw (.value s!"DI {d.circuit}: {name} {value} is out of range <{low}..{high}>")
  return ⌊number⌋

/-- The checks before the first write: the values of debounce and counter. -/
def parse (d : DigitalInput) (s : Attrs) (p : Params) : Except SetError (Option ℤ × Option ℤ) := do
  d.dimode.check s.dimode p.mode p.dsMode
  if let some counterMode := p.counterMode then
    if counterMode ∉ d.counterModes then
      throw (.value s!"DI {d.circuit}: unknown counter_mode \"{counterMode}\"")
  let debounce ← p.debounce.mapM fun value => d.registerValue "debounce" value d.accessorDebounce
  let counter ← p.counter.mapM fun value => do
    let counterMode := (p.counterMode.filter (· ≠ "")).getD s.counterMode
    if counterMode ≠ "Enabled" then throw (.value s!"DI {d.circuit}: the counter is disabled")
    d.registerValue "counter" value d.accessorCounter
  return (debounce, counter)

def set (d : DigitalInput) (device : ι) (s : Attrs) (p : Params) : SetScript ι Unit := do
  let (debounce, counter) ← SetScript.ofExcept (d.parse s p)
  d.dimode.set device s.dimode p.mode p.dsMode
  if let some counterMode := p.counterMode then
    if counterMode ≠ s.counterMode then
      Script.emit (.assign device (.counterMode counterMode))
      Script.emit (.readCounter device)
  if let some debounce := debounce then d.accessorDebounce.write debounce
  if let some counter := counter then d.accessorCounter.write counter
  SetScript.setAlias device p.aliasName

end Set

end DigitalInput

end Modbus

end Evok
