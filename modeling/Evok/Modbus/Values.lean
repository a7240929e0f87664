import Evok.Library.BinaryFloat
import Evok.Modbus.Cache

/-!
# Values of the devices

The parameters of a request, the values of the registers and the values of a state. Floats are
exact rational numbers, or not finite; a number is rounded to a double when it is written to float
registers.

## Main definitions

* `PyValue`, `toBool`, `toFloat`: a parameter of `set()` and its conversions.
* `SetError`: the errors of `set()`.
* `Value`: a value of the state of a device.
* `toDouble`: a number as a double.
* `decodeFloat32`, `encodeFloat32`: the format `f` of the registers.
-/

namespace Evok

namespace Modbus

/-- A number read from registers or given by a request. -/
inductive Number
  | finite (q : ℚ)
  | infinite (negative : Bool)
  | nan
  deriving DecidableEq

/-- An exception of `set()`, other than a communication error. -/
inductive SetError
  | value (message : String)
  | type (message : String)
  | overflow (message : String)
  | cache (error : CacheError)
  deriving DecidableEq

/-- A parameter of a request, from JSON or from a form. -/
inductive PyValue
  | bool (b : Bool)
  | int (n : ℤ)
  | float (x : Number)
  | str (s : String)
  /-- A list or a dictionary. -/
  | other (truthy : Bool)
  deriving DecidableEq

instance : ToString Number where
  toString
    | .finite q => toString q
    | .infinite negative => if negative then "-inf" else "inf"
    | .nan => "nan"

instance : ToString PyValue where
  toString
    | .bool b => if b then "True" else "False"
    | .int n => toString n
    | .float x => toString x
    | .str s => s
    | .other _ => "..."

/-! ## Doubles -/

/-- The codes of the doubles from this one on are not finite. -/
def infinityCode64 : ℕ :=
  2047 * 2 ^ 52

/-- The double nearest to a number, `none` if it would be infinite. -/
def toDouble (q : ℚ) : Option ℚ :=
  if q = 0 then some 0
  else
    let code := BinaryFloat.code 52 (-1022) |q|
    if infinityCode64 ≤ code then none
    else
      let double := BinaryFloat.value 52 (-1022) code.toNat
      some (if q < 0 then -double else double)

/-! ## Conversions of parameters -/

/-- `str.isspace` of a character. -/
def isSpace (c : Char) : Bool :=
  c.toNat ∈ [0x9, 0xA, 0xB, 0xC, 0xD, 0x1C, 0x1D, 0x1E, 0x1F, 0x20, 0x85, 0xA0, 0x1680, 0x2000,
    0x2001, 0x2002, 0x2003, 0x2004, 0x2005, 0x2006, 0x2007, 0x2008, 0x2009, 0x200A, 0x2028, 0x2029,
    0x202F, 0x205F, 0x3000]

/-- `str.strip`. -/
def strip (s : String) : List Char :=
  ((s.toList.dropWhile isSpace).reverse.dropWhile isSpace).reverse

/-- The decimal digits 0 of the scripts, nine other digits follow each of them. -/
def zeroDigits : List ℕ :=
  [0x30, 0x660, 0x6F0, 0x7C0, 0x966, 0x9E6, 0xA66, 0xAE6, 0xB66, 0xBE6, 0xC66, 0xCE6, 0xD66, 0xDE6,
    0xE50, 0xED0, 0xF20, 0x1040, 0x1090, 0x17E0, 0x1810, 0x1946, 0x19D0, 0x1A80, 0x1A90, 0x1B50,
    0x1BB0, 0x1C40, 0x1C50, 0xA620, 0xA8D0, 0xA900, 0xA9D0, 0xA9F0, 0xAA50, 0xABF0, 0xFF10, 0x104A0,
    0x10D30, 0x11066, 0x110F0, 0x11136, 0x111D0, 0x112F0, 0x11450, 0x114D0, 0x11650, 0x116C0,
    0x11730, 0x118E0, 0x11950, 0x11C50, 0x11D50, 0x11DA0, 0x16A60, 0x16AC0, 0x16B50, 0x1D7CE,
    0x1D7D8, 0x1D7E2, 0x1D7EC, 0x1D7F6, 0x1E140, 0x1E2F0, 0x1E950, 0x1FBF0]

/-- The digit of a character. -/
def digit? (c : Char) : Option ℕ :=
  (zeroDigits.find? fun first => first ≤ c.toNat ∧ c.toNat < first + 10).map (c.toNat - ·)

/-- The digits of a number, `_` between two digits is skipped. -/
def digitPart : List Char → List ℕ × List Char
  | '_' :: c :: cs =>
    match digit? c with
    | some digit =>
      let (digits, rest) := digitPart cs
      (digit :: digits, rest)
    | none => ([], '_' :: c :: cs)
  | c :: cs =>
    match digit? c with
    | some digit =>
      let (digits, rest) := digitPart cs
      (digit :: digits, rest)
    | none => ([], c :: cs)
  | [] => ([], [])

/-- The digits of a number, the first character is a digit. -/
def digits (cs : List Char) : List ℕ × List Char :=
  match cs with
  | c :: _ => if (digit? c).isSome then digitPart cs else ([], cs)
  | [] => ([], cs)

def ofDigits (ds : List ℕ) : ℕ :=
  ds.foldl (fun n d => 10 * n + d) 0

/-- An optional sign. -/
def sign : List Char → Bool × List Char
  | '-' :: cs => (true, cs)
  | '+' :: cs => (false, cs)
  | cs => (false, cs)

/-- The exponent of a number, `none` for other characters at its end. -/
def exponent : List Char → Option ℤ
  | [] => some 0
  | c :: cs =>
    if c = 'e' ∨ c = 'E' then
      let (negative, cs) := sign cs
      match digits cs with
      | (d :: ds, []) => some (if negative then -(ofDigits (d :: ds) : ℤ) else ofDigits (d :: ds))
      | _ => none
    else none

/-- A number without its sign. -/
def unsigned (cs : List Char) : Option ℚ :=
  let (whole, rest) := digits cs
  let (fraction, rest) := match rest with
    | '.' :: rest => digits rest
    | rest => ([], rest)
  if whole ++ fraction = [] then none
  else (exponent rest).map fun e : ℤ =>
    (ofDigits (whole ++ fraction) : ℚ) * 10 ^ (e - (fraction.length : ℤ))

/-- A number which is not rounded to an infinite double. -/
def inRange (q : ℚ) : Bool :=
  q.num.natAbs < (2 ^ 1024 - 2 ^ 970) * q.den

/-- `float()` of a string, a number over the range is infinite. -/
def pyFloat (s : String) : Option Number :=
  let (negative, cs) := sign ((strip s).map Char.toLower)
  if cs = "inf".toList ∨ cs = "infinity".toList then some (.infinite negative)
  else if cs = "nan".toList then some .nan
  else (unsigned cs).map fun q =>
    if inRange q then .finite (if negative then -q else q) else .infinite negative

def toBool : PyValue → Except SetError Bool
  | .str s =>
    let text := String.ofList ((strip s).map Char.toLower)
    if text ∈ ["true", "yes", "on", "1"] then .ok true
    else if text ∈ ["false", "no", "off", "0", ""] then .ok false
    else .error (.value s!"Invalid boolean value '{s}'")
  | .bool b => .ok b
  | .int n => .ok (n ≠ 0)
  | .float x => .ok (x ≠ .finite 0)
  | .other truthy => .ok truthy

/-- A finite number. -/
def toFloat : PyValue → Except SetError ℚ
  | .bool b => .ok (if b then 1 else 0)
  | .int n =>
    if inRange n then .ok n else .error (.overflow "int too large to convert to float")
  | .float (.finite q) => .ok q
  | .float x => .error (.value s!"Invalid number {x}")
  | .str s =>
    match pyFloat s with
    | some (.finite q) => .ok q
    | some _ => .error (.value s!"Invalid number {s}")
    | none => .error (.value s!"could not convert string to float: '{s}'")
  | .other _ => .error (.type "float() argument must be a string or a real number")

theorem toFloat_zero : toFloat (.int 0) = .ok 0 := by
  decide +kernel

/-! ## Values of a state -/

/-- A value of the state of a device. -/
inductive Value
  | null
  | bool (b : Bool)
  | number (q : ℚ)
  | str (s : String)
  | list (values : List Value)
  | dict (items : List (String × Value))

/-- `full()` of a device. -/
abbrev Full := List (String × Value)

namespace Value

def ofNumber : Option ℚ → Value
  | some q => number q
  | none => null

def ofString : Option String → Value
  | some s => str s
  | none => null

end Value

/-- The value of an analog device. -/
inductive Reading
  | none
  | number (q : ℚ)
  | text (s : String)
  deriving DecidableEq

def Reading.value : Reading → Value
  | none => .null
  | number q => .number q
  | text s => .str s

/-- NaN and infinity are not valid JSON. -/
def nonFiniteToStr : Option Number → Reading
  | some (.finite q) => .number q
  | some .nan => .text "NaN"
  | some (.infinite negative) => .text (if negative then "-Infinity" else "Infinity")
  | none => .none

/-! ## The format of floats -/

/-- The value of the bits of a float. -/
def decodeFloat32 (bits : BitVec 32) : Number :=
  let exponent : ℤ := bits.toNat / 2 ^ 23 % 2 ^ 8
  let mantissa : ℤ := bits.toNat % 2 ^ 23
  if exponent = 255 then
    if mantissa = 0 then .infinite bits.msb else .nan
  else
    let q : ℚ := if exponent = 0 then mantissa * 2 ^ (-149 : ℤ)
      else (2 ^ 23 + mantissa) * 2 ^ (exponent - 150)
    .finite (if bits.msb then -q else q)

/-- The bits of the nearest float, `none` if it would be infinite. -/
def encodeFloat32 (q : ℚ) : Option (BitVec 32) :=
  if q = 0 then some 0
  else
    let exponent := max (Int.log 2 |q|) (-126)
    let bits := (exponent + 126) * 2 ^ 23 + roundHalfEven (|q| / 2 ^ (exponent - 23))
    if 0x7F800000 ≤ bits then none
    else some (BitVec.ofInt 32 (if q < 0 then bits + 2 ^ 31 else bits))

end Modbus

end Evok
