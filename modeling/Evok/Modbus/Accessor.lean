import Evok.Modbus.Action

/-!
# Accessors of registers

An accessor reads a value of a datatype from the cache and applies its linear transformation and
rounding; a write applies the inverse transformation.

## Main definitions

* `Reader`: `Client.read_registers` of a unit.
* `Accessor.read`, `Accessor.write`: the value of the registers.
-/

namespace Evok

namespace Modbus

/-- The cached values of `count` registers from `index`. -/
abbrev Reader := (index count : ℕ) → (isInput : Bool) → Except CacheError (List Word)

/-- `word_order` of the 32-bit datatypes. -/
inductive WordOrder
  | big
  | little
  deriving DecidableEq

inductive DataType
  | unknown
  | bit (mask : Word)
  | uint16
  | int16
  | uint32 (order : WordOrder)
  | int32 (order : WordOrder)
  | float32 (order : WordOrder)
  deriving DecidableEq

namespace DataType

/-- The number of registers. -/
def count : DataType → ℕ
  | uint32 _ | int32 _ | float32 _ => 2
  | _ => 1

/-- `raw_range` of the integer datatypes. -/
def rawRange : DataType → Option (ℤ × ℤ)
  | bit _ => some (0, 1)
  | uint16 => some (0, 0xFFFF)
  | int16 => some (-0x8000, 0x7FFF)
  | uint32 _ => some (0, 0xFFFFFFFF)
  | int32 _ => some (-0x80000000, 0x7FFFFFFF)
  | unknown | float32 _ => none

protected def name : DataType → String
  | unknown => "None"
  | bit _ => "bit"
  | uint16 => "uint16"
  | int16 => "int16"
  | uint32 _ => "uint32"
  | int32 _ => "int32"
  | float32 _ => "float32"

/-- The bits of two registers. -/
def join (order : WordOrder) (registers : List Word) : BitVec 32 :=
  match order with
  | .big => registers.getD 0 0 ++ registers.getD 1 0
  | .little => registers.getD 1 0 ++ registers.getD 0 0

/-- The two registers of the bits. -/
def split (order : WordOrder) (bits : BitVec 32) : List Word :=
  match order with
  | .big => [bits.extractLsb' 16 16, bits.extractLsb' 0 16]
  | .little => [bits.extractLsb' 0 16, bits.extractLsb' 16 16]

/-- `from_registers` of the datatype, 1 if any masked bit is set. -/
def decode : DataType → List Word → Option Number
  | unknown, _ => none
  | bit mask, registers => some (.finite (if registers.getD 0 0 &&& mask = 0 then 0 else 1))
  | uint16, registers => some (.finite (registers.getD 0 0).toNat)
  | int16, registers => some (.finite (registers.getD 0 0).toInt)
  | uint32 order, registers => some (.finite (join order registers).toNat)
  | int32 order, registers => some (.finite (join order registers).toInt)
  | float32 order, registers => some (decodeFloat32 (join order registers))

/-- `to_registers` of the datatype, `none` for a float out of its range: a number is rounded to a
double first. -/
def encode : DataType → ℚ → Option (List Word)
  | unknown, _ | bit _, _ => none
  | uint16, raw | int16, raw => some [BitVec.ofInt 16 ⌊raw⌋]
  | uint32 order, raw | int32 order, raw => some (split order (BitVec.ofInt 32 ⌊raw⌋))
  | float32 order, raw => ((toDouble raw).bind encodeFloat32).map (split order)

end DataType

/-- The accessor of the registers from `index`; without an index it reads nothing. -/
structure Accessor where
  index : Option ℕ
  type : DataType
  isInput : Bool := false
  ratio : ℚ := 1
  offset : ℚ := 0
  decimals : Option ℤ := none
  pin : Bool := true
  deriving DecidableEq

namespace Accessor

/-- `Accessor(None)`. -/
def none : Accessor := { index := .none, type := .unknown }

/-- The accessor of an optional register. -/
def ofRegister (type : DataType) : Option ℕ → Accessor
  | some index => { index := some index, type }
  | .none => .none

/-- The register in the texts of the errors. -/
def register (a : Accessor) : String :=
  match a.index with
  | some index => toString index
  | .none => "None"

/-- `Accessor.__init__`: a value is divided by the ratio when it is written, the ratio 0 raises
`ValueError` with this text. -/
def make (a : Accessor) : Except String Accessor :=
  if a.ratio = 0 then .error s!"Ratio of register {a.register} cannot be 0" else .ok a

/-- The value of a number after the linear transformation. -/
def transform (a : Accessor) : Number → Number
  | .finite q => .finite (q * a.ratio + a.offset)
  | .infinite negative => .infinite (negative != decide (a.ratio < 0))
  | .nan => .nan

/-- The number rounded to the decimals. -/
def round (a : Accessor) : Number → Number
  | .finite q => .finite (match a.decimals with
    | some decimals => roundDecimals q decimals
    | .none => q)
  | x => x

def readRaw (a : Accessor) (read : Reader) : Except CacheError (Option Number) :=
  match a.type, a.index with
  | .unknown, _ | _, .none => .ok .none
  | type, some index => type.decode <$> read index type.count a.isInput

def read (a : Accessor) (read : Reader) : Except CacheError (Option Number) :=
  (·.map fun raw => a.round (if a.ratio ≠ 1 ∨ a.offset ≠ 0 then a.transform raw else raw)) <$>
    a.readRaw read

/-- The integer of an accessor without a transformation. -/
def readInt (a : Accessor) (read : Reader) : Except CacheError (Option ℤ) :=
  (fun
    | some (.finite q) => some ⌊q⌋
    | _ => .none) <$> a.read read

/-- The registers (address, is_input) of the accessor. -/
def registers (a : Accessor) : List (ℕ × Bool) :=
  match a.index with
  | some index => (List.range a.type.count).map fun i => (index + i, a.isInput)
  | .none => []

section Write

variable {ι : Type}

def outOfRange (a : Accessor) (value : ℚ) : SetError :=
  .value s!"Value {value} out of range for {a.type.name} register {a.register}"

def writeRaw (a : Accessor) (raw : ℚ) : SetScript ι Unit :=
  match a.type, a.index with
  | .bit mask, some index => Script.emit (.writeBit index mask (raw ≠ 0) a.pin)
  | .unknown, _ | _, .none =>
    throw (.value s!"Cannot write unknown datatype to register {a.register}")
  | type, some index =>
    match type.encode raw with
    | some registers => Script.emit (.writeRegisters index registers true a.pin)
    | .none => throw (a.outOfRange raw)

/-- Write the value by the inverse transformation. -/
def write (a : Accessor) (value : ℚ) : SetScript ι Unit := do
  if a.isInput then throw (.value s!"Input register {a.register} is read-only")
  let raw := if a.ratio ≠ 1 ∨ a.offset ≠ 0 then (value - a.offset) / a.ratio else value
  match a.type.rawRange with
  | some (low, high) =>
    let raw := roundHalfEven raw
    if low ≤ raw ∧ raw ≤ high then a.writeRaw raw else throw (a.outOfRange value)
  | .none => a.writeRaw raw

end Write

end Accessor

end Modbus

end Evok
