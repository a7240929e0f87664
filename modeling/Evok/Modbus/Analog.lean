import Evok.Modbus.Digital

/-!
# Analog devices and data points

## Main definitions

* `AnalogInput`: an analog input, the base of the analog outputs.
* `AnalogOutput`, `AnalogOutputBrain`: analog outputs.
* `DataPoint`: a value of registers, `Register` and `OwTemperature` are data points.

## Main results

* `AnalogIO.updateMode_cases`: what an update of the mode does.
-/

namespace Evok

namespace Modbus

/-! ## Analog inputs -/

/-- The classes of analog IOs, `Brain` with the register of the measured resistance. -/
inductive AnalogKind
  | input
  | output
  | brain (regRes : Option ℕ)
  deriving DecidableEq

/-- An analog input or output; `iomode` has the modes of the class. -/
structure AnalogIO where
  kind : AnalogKind
  circuit : String
  reg : ℕ
  iomode : IOMode

namespace AnalogIO

structure State where
  iomode : IOMode.State
  value : Reading := .none
  accessor : Accessor
  accessorMode : Option String := none
  deriving DecidableEq

structure Params where
  /-- The value of an output. -/
  value : Option PyValue := none
  mode : Option String := none
  aliasName : Option String := none

/-- `AnalogOutputBrain.MODES`. -/
def brainModes : List (String × ModeData) :=
  [("Voltage", { value := some 0, unit := some "V", range := some (0, 10) }),
    ("Current", { value := some 1, unit := some "mA", range := some (0, 20) }),
    ("Resistance", { value := some 3, unit := some "Ohm", range := some (0, 2000) })]

def analogInput (circuit : String) (reg : ℕ) (regmode : Option ℕ)
    (modes : List (String × ModeData)) : AnalogIO :=
  ⟨.input, circuit, reg, ⟨regmode, modes, s!"AI {circuit}"⟩⟩

def analogOutput (circuit : String) (reg : ℕ) (regmode : Option ℕ)
    (modes : List (String × ModeData)) : AnalogIO :=
  ⟨.output, circuit, reg, ⟨regmode, modes, s!"AO {circuit}"⟩⟩

/-- Without `reg_res` the Resistance mode is not available. -/
def analogOutputBrain (circuit : String) (reg : ℕ) (regmode regRes : Option ℕ) : AnalogIO :=
  let modes := if regRes.isSome then brainModes else brainModes.filter (·.1 ≠ "Resistance")
  ⟨.brain regRes, circuit, reg, ⟨regmode, modes, s!"AO {circuit}"⟩⟩

def devtype (d : AnalogIO) : String :=
  match d.kind with
  | .input => "ai"
  | .output | .brain _ => "ao"

/-- The accessor used before a mode is known. -/
def defaultAccessor (d : AnalogIO) : Accessor :=
  match d.kind with
  | .output => { index := some d.reg, type := .uint16, ratio := 1 / 400, decimals := some 3 }
  | .input | .brain _ => { index := some d.reg, type := .float32 .little, decimals := some 3 }

/-- `ao_accessor` of the Brain. -/
def aoAccessor (d : AnalogIO) : Accessor :=
  { index := some d.reg, type := .float32 .little, decimals := some 3 }

/-- `res_accessor` of the Brain. -/
def resAccessor (d : AnalogIO) : Accessor :=
  match d.kind with
  | .brain (some index) => { index := some index, type := .float32 .little, decimals := some 3 }
  | _ => .none

def init (d : AnalogIO) : State :=
  { iomode := d.iomode.init, accessor := d.defaultAccessor }

/-- The accessor of the value in the current mode. -/
def makeAccessor (d : AnalogIO) (s : State) : Except CacheError Accessor :=
  match d.kind with
  | .input =>
    match s.iomode.mode with
    | none => .ok { index := s.accessor.index, type := .unknown, isInput := s.accessor.isInput }
    | some _ =>
      let t := ((d.iomode.data s.iomode).getD {}).transformation
      let accessor : Accessor :=
        { index := s.accessor.index
          type := t.datatype
          isInput := s.accessor.isInput
          ratio := t.ratio
          offset := t.offset
          decimals := t.decimals.getD (if t.datatype = .float32 .little then some 3 else none) }
      accessor.make.mapError .value
  | .output => .ok s.accessor
  | .brain _ => .ok (if s.iomode.mode = some "Resistance" then d.resAccessor else d.aoAccessor)

/-- Read the mode, then make the accessor of the value; an accessor which cannot be made is tried at
the next check again. -/
def updateMode (d : AnalogIO) (read : Reader) (s : State) : State × Except CacheError Bool :=
  match d.iomode.update read s.iomode with
  | (iomode, .error e) => ({ s with iomode }, .error e)
  | (iomode, .ok hasChanged) =>
    let s := { s with iomode }
    if hasChanged ∨ s.iomode.mode ≠ s.accessorMode then
      match d.makeAccessor s with
      | .error e => (s, .error e)
      | .ok accessor => ({ s with accessor, accessorMode := s.iomode.mode }, .ok hasChanged)
    else (s, .ok hasChanged)

/-- The accessor of the mode can be made, its ratio is not 0. -/
def Makes (d : AnalogIO) (mode : Option String) : Prop :=
  d.kind = .input → ∀ name, mode = some name →
    ((d.iomode.modes.lookup name).getD {}).transformation.ratio ≠ 0

theorem makes_none (d : AnalogIO) : d.Makes none :=
  fun _ _ h => by cases h

theorem makeAccessor_ok {d : AnalogIO} {s : State} (h : d.Makes s.iomode.mode) :
    ∃ accessor, d.makeAccessor s = .ok accessor := by
  unfold makeAccessor
  split
  · next input =>
    split
    · exact ⟨_, rfl⟩
    · next name hmode =>
      have hdata : d.iomode.data s.iomode = d.iomode.modes.lookup name := by
        rw [IOMode.data, hmode]
        rfl
      have hratio := h input name hmode
      rw [hdata]
      simp only [Accessor.make, hratio, if_false]
      exact ⟨_, rfl⟩
  · exact ⟨_, rfl⟩
  · exact ⟨_, rfl⟩

theorem makeAccessor_error {d : AnalogIO} {s : State} (h : ¬d.Makes s.iomode.mode) :
    ∃ message, d.makeAccessor s = .error (.value message) := by
  simp only [Makes, not_forall, not_not] at h
  obtain ⟨input, name, hmode, zero⟩ := h
  have hdata : d.iomode.data s.iomode = d.iomode.modes.lookup name := by
    rw [IOMode.data, hmode]
    rfl
  simp only [makeAccessor, input, hmode, hdata, Accessor.make, zero, if_true, Except.mapError]
  exact ⟨_, rfl⟩

/-- What an update of the mode does after the read of the mode register. -/
inductive Updated (d : AnalogIO) (s : State) (iomode : IOMode.State) :
    Bool → State × Except CacheError Bool → Prop
  /-- The accessor of the mode cannot be made. -/
  | raised {changed : Bool} (moved : changed = true ∨ iomode.mode ≠ s.accessorMode)
      (zero : ¬d.Makes iomode.mode) (message : String) :
      Updated d s iomode changed ({ s with iomode }, .error (.value message))
  | made {changed : Bool} (moved : changed = true ∨ iomode.mode ≠ s.accessorMode)
      (makes : d.Makes iomode.mode) {accessor : Accessor}
      (new : d.makeAccessor { s with iomode } = .ok accessor) :
      Updated d s iomode changed
        ({ s with iomode, accessor, accessorMode := iomode.mode }, .ok changed)
  | kept (same : iomode = s.iomode) (settled : s.iomode.mode = s.accessorMode) :
      Updated d s iomode false (s, .ok false)

/-- An update of the mode raises for its register and changes nothing, or goes on. -/
theorem updateMode_cases (d : AnalogIO) (read : Reader) (s : State) :
    (∃ e, d.iomode.update read s.iomode = (s.iomode, .error e) ∧
      d.updateMode read s = (s, .error e)) ∨
    ∃ iomode changed, d.iomode.update read s.iomode = (iomode, .ok changed) ∧
      (changed = false → iomode = s.iomode) ∧ d.Updated s iomode changed (d.updateMode read s) := by
  rcases hupdate : d.iomode.update read s.iomode with ⟨iomode, e | changed⟩
  · left
    obtain rfl : iomode = s.iomode := by
      unfold IOMode.update at hupdate
      split at hupdate
      · exact (Prod.mk.inj hupdate).1.symm
      · split at hupdate <;> cases (Prod.mk.inj hupdate).2
    exact ⟨e, rfl, by simp only [updateMode, hupdate]⟩
  · right
    have same : changed = false → iomode = s.iomode := by
      rintro rfl
      unfold IOMode.update at hupdate
      split at hupdate
      · cases (Prod.mk.inj hupdate).2
      · split at hupdate
        · exact (Prod.mk.inj hupdate).1.symm
        · cases (Prod.mk.inj hupdate).2
    refine ⟨iomode, changed, rfl, same, ?_⟩
    simp only [updateMode, hupdate]
    by_cases moved : changed = true ∨ iomode.mode ≠ s.accessorMode
    · rw [if_pos moved]
      by_cases makes : d.Makes iomode.mode
      · obtain ⟨accessor, new⟩ := makeAccessor_ok (s := { s with iomode }) makes
        rw [new]
        exact .made moved makes new
      · obtain ⟨message, error⟩ := makeAccessor_error (s := { s with iomode }) makes
        rw [error]
        exact .raised moved makes message
    · rw [if_neg moved]
      rw [not_or, Bool.not_eq_true, not_not] at moved
      obtain ⟨rfl, settled⟩ := moved
      obtain rfl := same rfl
      exact .kept rfl settled

/-- The value read, `null` before its first read. -/
def readValue (a : Accessor) (read : Reader) : Except CacheError Reading :=
  match a.read read with
  | .ok value => .ok (nonFiniteToStr value)
  | .error (.noCacheRegister _) => .ok .none
  | .error e => .error e

/-- The modes for the API. -/
def apiModes (d : AnalogIO) : Value :=
  .dict (d.iomode.modes.map fun (mode, data) => (mode, .dict <|
    (data.unit.map fun unit => ("unit", Value.str unit)).toList ++
      (data.range.map fun (low, high) => ("range", .list [.number low, .number high])).toList))

def full (d : AnalogIO) (s : State) (c : Common) : Full :=
  let data := d.iomode.data s.iomode
  withCommon [("dev", .str d.devtype), ("circuit", .str d.circuit), ("value", s.value.value),
    ("unit", .ofString (data.bind (·.unit))), ("mode", .ofString s.iomode.mode),
    ("modes", d.apiModes),
    ("range", match data.bind (·.range) with
      | some (low, high) => .list [.number low, .number high]
      | none => .null)] c

section Set

variable {ι : Type}

/-- The value of an output as a float in the range of the mode. -/
def checkValue (d : AnalogIO) (s : State) (value : PyValue) (mode : Option String) :
    Except SetError ℚ := do
  match d.kind with
  | .brain _ =>
    if mode ≠ some "Voltage" ∧ mode ≠ some "Current" then
      let name := mode.getD "None"
      throw (.value s!"AO {d.circuit}: value cannot be set in mode \"{name}\"")
  | _ => pure ()
  let value ← toFloat value
  let data := mode.bind fun mode => d.iomode.modes.lookup mode
  let (low, high) := (data.bind (·.range)).getD (0, 4095 * s.accessor.ratio)
  if ¬(low ≤ value ∧ value ≤ high) then
    throw (.value s!"AO {d.circuit}: value \"{value}\" is out of limit <{low}..{high}>")
  return value

/-- The value written by `set()` with its mode: a change of the mode of a Brain to Voltage or
Current sets 0 without a value. -/
def newValue (d : AnalogIO) (s : State) (p : Params) : Option PyValue :=
  match d.kind, p.value, p.mode with
  | .input, _, _ => none
  | .brain _, none, some mode =>
    if some mode ≠ s.iomode.mode ∧ (mode = "Voltage" ∨ mode = "Current") then some (.int 0)
    else none
  | _, value, _ => value

/-- The accessor of the writes. -/
def writeAccessor (d : AnalogIO) (s : State) : Accessor :=
  match d.kind with
  | .brain _ => d.aoAccessor
  | _ => s.accessor

/-- The checks before the first write: the value to write. -/
def parse (d : AnalogIO) (s : State) (p : Params) : Except SetError (Option ℚ) := do
  match d.kind, p.mode with
  | .input, _ | _, none => pure ()
  | _, some mode => discard (d.iomode.check s.iomode mode)
  (d.newValue s p).mapM fun value => d.checkValue s value (p.mode.orElse fun _ => s.iomode.mode)

def set (d : AnalogIO) (device : ι) (s : State) (p : Params) : SetScript ι Unit := do
  let value ← SetScript.ofExcept (d.parse s p)
  if let some mode := p.mode then discard (d.iomode.set s.iomode mode)
  if let some value := value then (d.writeAccessor s).write value
  SetScript.setAlias device p.aliasName

end Set

def checkNewData (d : AnalogIO) (read : Reader) (s : State) : State × Except CacheError Bool :=
  match d.updateMode read s with
  | (s, .error e) => (s, .error e)
  | (s, .ok hasChanged) =>
    match readValue s.accessor read with
    | .error e => (s, .error e)
    | .ok value => ({ s with value }, .ok (value ≠ s.value ∨ hasChanged))

end AnalogIO

/-! ## Data points -/

/-- The classes of data points, `OwTemperature` with its validity bit. -/
inductive DataPointKind
  | dataPoint
  | register
  | owTemperature (validMaskReg : ℕ) (validMask : Word)
  deriving DecidableEq

structure DataPoint where
  kind : DataPointKind
  circuit : String
  reg : ℕ
  isInput : Bool := false
  datatype : DataType := .int16
  unit : Option String := none
  offset : ℚ := 0
  factor : ℚ := 1
  name : Option String := none
  writable : Bool := false

namespace DataPoint

structure State where
  value : Reading := .none
  isValid : Option Bool := none
  deriving DecidableEq

structure Params where
  value : Option PyValue := none
  aliasName : Option String := none

/-- `Register`: a raw register, a holding one is writable. -/
def register (circuit : String) (reg : ℕ) (isInput : Bool) : DataPoint :=
  { kind := .register, circuit, reg, isInput, datatype := .uint16, writable := !isInput }

def accessor (d : DataPoint) : Accessor :=
  { index := some d.reg
    type := d.datatype
    isInput := d.isInput
    ratio := d.factor
    offset := d.offset }

def full (d : DataPoint) (s : State) (c : Common) : Full :=
  match d.kind with
  | .register =>
    withCommon [("dev", .str "register"), ("circuit", .str d.circuit), ("value", s.value.value)] c
  | kind =>
    let ret := withCommon ([("dev", .str "data_point"), ("circuit", .str d.circuit),
      ("value", s.value.value), ("writable", .bool d.writable)] ++
      (d.name.map fun name => ("name", Value.str name)).toList ++
      (d.unit.map fun unit => ("unit", Value.str unit)).toList) c
    match kind with
    | .owTemperature _ _ => ret ++ [("valid", match s.isValid with
        | some valid => .bool valid
        | none => .null)]
    | _ => ret

/-- The validity bit, `false` before its first read. -/
def readIsValid (d : DataPoint) (read : Reader) (reg : ℕ) (mask : Word) :
    Except CacheError Bool :=
  let a : Accessor := { index := some reg, type := .bit mask, isInput := d.isInput }
  match a.readInt read with
  | .ok value => .ok (value.getD 0 ≠ 0)
  | .error (.noCacheRegister _) => .ok false
  | .error e => .error e

def checkNewData (d : DataPoint) (read : Reader) (s : State) : State × Except CacheError Bool :=
  match AnalogIO.readValue d.accessor read with
  | .error e => (s, .error e)
  | .ok value =>
    let valueChanged : Bool := s.value ≠ value
    let s := { s with value }
    match d.kind with
    | .owTemperature reg mask =>
      match d.readIsValid read reg mask with
      | .error e => (s, .error e)
      | .ok isValid =>
        ({ s with isValid := some isValid }, .ok (valueChanged || s.isValid ≠ some isValid))
    | _ => (s, .ok valueChanged)

def set {ι : Type} (d : DataPoint) (device : ι) (p : Params) : SetScript ι Unit := do
  if let some value := p.value then
    if ¬d.writable then throw (.value s!"Data point {d.circuit} is read-only")
    d.accessor.write (← SetScript.ofExcept (toFloat value))
  SetScript.setAlias device p.aliasName

end DataPoint

end Modbus

end Evok
