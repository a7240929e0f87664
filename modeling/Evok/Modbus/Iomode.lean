import Evok.Modbus.Accessor

/-!
# Modes of analog and digital inputs and outputs

## Main definitions

* `IOMode`: the mode of an analog IO, selected by a mode register.
* `DIMode`: the mode of a digital input, selected by its bit in shared mode registers.
-/

namespace Evok

namespace Modbus

/-- `transformation` of a mode. -/
structure Transformation where
  datatype : DataType := .float32 .little
  ratio : ℚ := 1
  offset : ℚ := 0
  decimals : Option (Option ℤ) := none

/-- A mode of the hardware definition. -/
structure ModeData where
  value : Option ℤ := none
  unit : Option String := none
  range : Option (ℚ × ℚ) := none
  transformation : Transformation := {}

/-- The mode of an analog IO; `index` is its mode register. -/
structure IOMode where
  index : Option ℕ
  modes : List (String × ModeData)
  name : String

namespace IOMode

structure State where
  modeValue : Option ℤ
  mode : Option String
  deriving DecidableEq

/-- The fixed mode is known when a single mode is defined. -/
def init (m : IOMode) : State :=
  ⟨none, match m.index, m.modes with
    | none, [(mode, _)] => some mode
    | _, _ => none⟩

def accessor (m : IOMode) : Accessor :=
  .ofRegister .uint16 m.index

/-- The definition of the current mode. -/
def data (m : IOMode) (s : State) : Option ModeData :=
  s.mode.bind fun mode => m.modes.lookup mode

/-- The name of the mode with the register value. -/
def find (m : IOMode) (value : ℤ) : Option String :=
  (m.modes.find? (·.2.value = some value)).map (·.1)

/-- Read the mode register from the cache. -/
def update (m : IOMode) (read : Reader) (s : State) : State × Except CacheError Bool :=
  match m.accessor.readInt read with
  | .error e => (s, .error e)
  | .ok modeValue =>
    if modeValue = s.modeValue then (s, .ok false)
    else (⟨modeValue, modeValue.bind m.find⟩, .ok true)

/-- The definition of a mode which can be set. -/
def check (m : IOMode) (s : State) (mode : String) : Except SetError ModeData :=
  match m.modes.lookup mode with
  | none => .error (.value s!"{m.name}: unknown mode \"{mode}\"!")
  | some data =>
    match m.index, data.value with
    | none, _ =>
      if some mode ≠ s.mode then
        .error (.value s!"{m.name}: cannot switch to mode \"{mode}\" without a mode register")
      else .ok data
    | some _, none => .error (.value
        s!"{m.name}: mode \"{mode}\" has no value of the mode register, it cannot be set")
    | some _, some _ => .ok data

/-- Write the mode to the mode register. -/
def set {ι : Type} (m : IOMode) (s : State) (mode : String) : SetScript ι ModeData := do
  let data ← SetScript.ofExcept (m.check s mode)
  if m.index.isSome then m.accessor.write (data.value.getD 0)
  return data

end IOMode

/-- The mode of a digital input. -/
structure DIMode where
  bitmask : Word
  regmode : Option ℕ := none
  regpolarity : Option ℕ := none
  regtoggle : Option ℕ := none
  modes : List String := ["Simple"]
  dsModes : List String := ["Simple"]
  name : String := ""

namespace DIMode

structure State where
  mode : String := "Simple"
  dsMode : String := "Simple"
  deriving DecidableEq

def accessorMode (m : DIMode) : Accessor :=
  .ofRegister (.bit m.bitmask) m.regmode

def accessorPolarity (m : DIMode) : Accessor :=
  .ofRegister (.bit m.bitmask) m.regpolarity

def accessorToggle (m : DIMode) : Accessor :=
  .ofRegister (.bit m.bitmask) m.regtoggle

def hasDirectSwitch (m : DIMode) : Bool :=
  "DirectSwitch" ∈ m.modes && m.regmode.isSome

/-- The accessor reads a value other than 0. -/
def readFlag (a : Accessor) (read : Reader) : Except CacheError Bool :=
  (fun value => value.getD 0 ≠ 0) <$> a.readInt read

/-- `ds_mode` by the polarity and the toggle bit. -/
def readDsMode (m : DIMode) (read : Reader) : Except CacheError String := do
  if ← readFlag m.accessorPolarity read then return "Inverted"
  if ← readFlag m.accessorToggle read then return "Toggle"
  return "Simple"

/-- Read the mode registers from the cache. -/
def update (m : DIMode) (read : Reader) (s : State) : State × Except CacheError Bool :=
  if m.hasDirectSwitch then
    match readFlag m.accessorMode read with
    | .error e => (s, .error e)
    | .ok true =>
      match m.readDsMode read with
      | .error e => ({ s with mode := "DirectSwitch" }, .error e)
      | .ok dsMode => (⟨"DirectSwitch", dsMode⟩, .ok (s ≠ ⟨"DirectSwitch", dsMode⟩))
    | .ok false => ({ s with mode := "Simple" }, .ok (s.mode ≠ "Simple"))
  else (s, .ok false)

/-- Refuse an unknown mode, and `ds_mode` without the DirectSwitch mode. -/
def check (m : DIMode) (s : State) (mode dsMode : Option String) : Except SetError Unit := do
  if let some mode := mode then
    if mode ∉ m.modes then throw (.value s!"{m.name}: unknown mode \"{mode}\"")
  if let some dsMode := dsMode then
    if dsMode ∉ m.dsModes then throw (.value s!"{m.name}: unknown ds_mode \"{dsMode}\"")
    if mode.getD s.mode ≠ "DirectSwitch" then
      throw (.value s!"{m.name}: ds_mode can be set only in the DirectSwitch mode")

/-- Write the DirectSwitch mode, then the mode; of the polarity and the toggle bits the cleared one
is written first. -/
def set {ι : Type} (m : DIMode) (device : ι) (s : State) (mode dsMode : Option String) :
    SetScript ι Unit := do
  SetScript.ofExcept (m.check s mode dsMode)
  if let some dsMode := dsMode then
    let inverted : ℚ := if dsMode = "Inverted" then 1 else 0
    let toggle : ℚ := if dsMode = "Toggle" then 1 else 0
    if inverted ≤ toggle then
      m.accessorPolarity.write inverted
      m.accessorToggle.write toggle
    else
      m.accessorToggle.write toggle
      m.accessorPolarity.write inverted
    Script.emit (.assign device (.dsMode dsMode))
  if let some mode := mode then
    if m.regmode.isSome then
      m.accessorMode.write (if mode = "DirectSwitch" then 1 else 0)
    Script.emit (.assign device (.mode mode))

end DIMode

end Modbus

end Evok
