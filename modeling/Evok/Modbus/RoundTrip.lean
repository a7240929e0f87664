import Evok.Modbus.Accessor
import Mathlib.Tactic.FieldSimp

/-!
# Round trips of the integer accessors

A value read by an accessor and written by it is the registers again; a written value is read back
up to the rounding of the raw value.

## Main definitions

* `DataType.IsInteger`: the integer datatypes.
* `DataType.Codec`: the registers and the raw values of a datatype.

## Main results

* `DataType.IsInteger.codec`: each integer datatype has a codec.
* `Accessor.round_trip`: the two round trips.
-/

namespace Evok

namespace Modbus

namespace DataType

def IsInteger : DataType → Prop
  | uint16 | int16 | uint32 _ | int32 _ => True
  | unknown | bit _ | float32 _ => False

/-- The raw values of the range and the registers are the same. -/
structure Codec (type : DataType) (low high : ℤ) : Prop where
  range : type.rawRange = some (low, high)
  decode_encode : ∀ raw : ℤ, low ≤ raw → raw ≤ high → ∃ registers,
    type.encode raw = some registers ∧ registers.length = type.count ∧
      type.decode registers = some (.finite raw)

/-! ## The words -/

theorem join_split (order : WordOrder) (bits : BitVec 32) :
    join order (split order bits) = bits := by
  have hbits : bits.extractLsb' 16 16 ++ bits.extractLsb' 0 16 = bits := by
    rw [BitVec.extractLsb'_append_extractLsb'_eq_extractLsb' (by rfl)]
    simp
  cases order <;> exact hbits

/-- An unsigned value of the range is kept by its bits. -/
theorem toNat_ofInt {w : ℕ} {raw : ℤ} (low : 0 ≤ raw) (high : raw < 2 ^ w) :
    ((BitVec.ofInt w raw).toNat : ℚ) = raw := by
  have hmod : raw % 2 ^ w = raw := Int.emod_eq_of_lt low high
  have hbits : ((BitVec.ofInt w raw).toNat : ℤ) = raw := by
    rw [BitVec.toNat_ofInt]
    push_cast
    rw [hmod, Int.toNat_of_nonneg low]
  exact_mod_cast congrArg (Int.cast (R := ℚ)) hbits

/-- A signed value of the range is kept by its bits. -/
theorem toInt_ofInt {w : ℕ} (pos : 0 < w) {raw : ℤ} (low : -2 ^ (w - 1) ≤ raw)
    (high : raw < 2 ^ (w - 1)) : ((BitVec.ofInt w raw).toInt : ℚ) = raw := by
  rw [BitVec.toInt_ofInt_eq_self pos low high]

theorem IsInteger.codec {type : DataType} (h : type.IsInteger) :
    ∃ low high, type.Codec low high := by
  cases type with
  | unknown | bit | float32 => exact h.elim
  | uint16 =>
    refine ⟨_, _, rfl, fun raw low high => ⟨_, rfl, rfl, ?_⟩⟩
    rw [decode, Int.floor_intCast, List.getD_cons_zero, toNat_ofInt low (by omega)]
  | int16 =>
    refine ⟨_, _, rfl, fun raw low high => ⟨_, rfl, rfl, ?_⟩⟩
    rw [decode, Int.floor_intCast, List.getD_cons_zero,
      toInt_ofInt (by decide) (by omega) (by omega)]
  | uint32 order =>
    refine ⟨_, _, rfl, fun raw low high => ⟨_, rfl, by cases order <;> rfl, ?_⟩⟩
    rw [decode, Int.floor_intCast, join_split, toNat_ofInt low (by omega)]
  | int32 order =>
    refine ⟨_, _, rfl, fun raw low high => ⟨_, rfl, by cases order <;> rfl, ?_⟩⟩
    rw [decode, Int.floor_intCast, join_split, toInt_ofInt (by decide) (by omega) (by omega)]

end DataType

namespace Accessor

open DataType

variable {ι : Type} (a : Accessor) {index : ℕ} {low high : ℤ}

/-- The shortcut without a transformation is the transformation. -/
theorem transform_eq (raw : ℚ) :
    (if a.ratio ≠ 1 ∨ a.offset ≠ 0 then a.transform (.finite raw) else .finite raw) =
      .finite (raw * a.ratio + a.offset) := by
  split
  · rfl
  · next none =>
    obtain ⟨hratio, hoffset⟩ := not_or.mp none
    rw [not_not.mp hratio, not_not.mp hoffset, mul_one, add_zero]

/-- The shortcut without a transformation is the inverse transformation. -/
theorem inverse_eq (value : ℚ) :
    (if a.ratio ≠ 1 ∨ a.offset ≠ 0 then (value - a.offset) / a.ratio else value) =
      (value - a.offset) / a.ratio := by
  split
  · rfl
  · next none =>
    obtain ⟨hratio, hoffset⟩ := not_or.mp none
    rw [not_not.mp hratio, not_not.mp hoffset, div_one, sub_zero]

/-- The value of a raw value. -/
def value (raw : ℤ) : ℚ :=
  match a.decimals with
  | some decimals => roundDecimals (raw * a.ratio + a.offset) decimals
  | .none => raw * a.ratio + a.offset

/-- The raw value of a value. -/
def raw (value : ℚ) : ℤ :=
  roundHalfEven ((value - a.offset) / a.ratio)

theorem read_eq {read : Reader} {registers : List Word} {raw : ℤ} (hindex : a.index = some index)
    (integer : a.type.IsInteger) (hread : read index a.type.count a.isInput = .ok registers)
    (hdecode : a.type.decode registers = some (.finite raw)) :
    a.read read = .ok (some (.finite (a.value raw))) := by
  have hraw : a.readRaw read = .ok (some (.finite raw)) := by
    unfold readRaw
    cases htype : a.type <;> rw [htype] at integer hread hdecode <;>
      simp [IsInteger, hindex, hread, hdecode] at integer ⊢
  have hround : a.round (if a.ratio ≠ 1 ∨ a.offset ≠ 0 then a.transform (.finite raw)
      else .finite raw) = .finite (a.value raw) := by
    rw [transform_eq]
    rfl
  rw [Accessor.read, hraw]
  exact congrArg (fun x => Except.ok (some x)) hround

/-- A write of a value is one request with the registers of its raw value, or an error. -/
theorem write_eq (value : ℚ) (codec : a.type.Codec low high) (writable : a.isInput = false) :
    (a.write value : SetScript ι Unit) =
      if low ≤ a.raw value ∧ a.raw value ≤ high then a.writeRaw (a.raw value)
      else ⟨[], .error (a.outOfRange value)⟩ := by
  unfold write
  simp only [writable, Bool.false_eq_true, if_false, inverse_eq, codec.range, raw, Script.throw_eq]
  rfl

theorem writeRaw_encode {raw : ℤ} {registers : List Word} (hindex : a.index = some index)
    (integer : a.type.IsInteger) (hencode : a.type.encode raw = some registers) :
    (a.writeRaw raw : SetScript ι Unit) =
      ⟨[.writeRegisters index registers true a.pin], .ok ()⟩ := by
  unfold writeRaw
  cases htype : a.type <;> rw [htype] at integer hencode <;>
    simp [IsInteger, hindex, hencode, Script.emit] at integer ⊢

/-- The raw value of a value read back, the rounding to decimals is finer than it. -/
theorem raw_value (raw : ℤ) (ratio : a.ratio ≠ 0)
    (finer : ∀ decimals, a.decimals = some decimals → (10 : ℚ) ^ (-decimals) < |a.ratio|) :
    a.raw (a.value raw) = raw := by
  have hratio : 0 < |a.ratio| := abs_pos.mpr ratio
  have hnear : |a.value raw - (raw * a.ratio + a.offset)| < |a.ratio| / 2 := by
    unfold value
    split
    · next decimals hdecimals =>
      have hfiner := finer decimals hdecimals
      have hpow : (0 : ℚ) < 10 ^ decimals := zpow_pos (by norm_num) decimals
      set exact := raw * a.ratio + a.offset
      have hround := abs_sub_roundHalfEven_le (exact * 10 ^ decimals)
      have hscale : roundDecimals exact decimals - exact =
          -(exact * 10 ^ decimals - roundHalfEven (exact * 10 ^ decimals)) / 10 ^ decimals := by
        unfold roundDecimals
        field_simp
        ring
      rw [zpow_neg, inv_lt_iff_one_lt_mul₀ hpow] at hfiner
      rw [hscale, abs_div, abs_neg, abs_of_pos hpow, div_lt_iff₀ hpow]
      linarith
    · simp only [sub_self, abs_zero]
      positivity
  have hquotient : |(a.value raw - a.offset) / a.ratio - raw| < 1 / 2 := by
    have heq : (a.value raw - a.offset) / a.ratio - raw =
        (a.value raw - (raw * a.ratio + a.offset)) / a.ratio := by
      field_simp
      ring
    rw [heq, abs_div, div_lt_iff₀ hratio]
    linarith
  exact roundHalfEven_eq_iff.mpr (.inl hquotient)

/-- Without decimals a value is read back up to the half of the ratio. -/
theorem abs_value_raw_le (value : ℚ) (ratio : a.ratio ≠ 0) (exact : a.decimals = .none) :
    |a.value (a.raw value) - value| ≤ |a.ratio| / 2 := by
  have hround := abs_sub_roundHalfEven_le ((value - a.offset) / a.ratio)
  have hvalue : a.value (a.raw value) - value =
      -(((value - a.offset) / a.ratio - a.raw value) * a.ratio) := by
    simp only [Accessor.value, exact]
    field_simp
    ring
  rw [hvalue, abs_neg, abs_mul]
  calc |(value - a.offset) / a.ratio - a.raw value| * |a.ratio|
      ≤ 1 / 2 * |a.ratio| := by gcongr; exact hround
    _ = |a.ratio| / 2 := by ring

/-- The registers of a written value. -/
theorem write_cases (value : ℚ) (hindex : a.index = some index) (integer : a.type.IsInteger)
    (codec : a.type.Codec low high) :
    (∃ text, (a.write value : SetScript ι Unit) = ⟨[], .error (.value text)⟩) ∨
      ∃ registers, (a.write value : SetScript ι Unit) =
          ⟨[.writeRegisters index registers true a.pin], .ok ()⟩ ∧
        registers.length = a.type.count ∧
        a.type.decode registers = some (.finite (a.raw value)) := by
  cases writable : a.isInput with
  | true =>
    left
    unfold write
    rw [writable]
    exact ⟨_, rfl⟩
  | false =>
    rw [a.write_eq value codec writable]
    by_cases range : low ≤ a.raw value ∧ a.raw value ≤ high
    · right
      obtain ⟨registers, hencode, hlength, hdecode⟩ :=
        codec.decode_encode (a.raw value) range.1 range.2
      rw [if_pos range, a.writeRaw_encode hindex integer hencode]
      exact ⟨registers, rfl, hlength, hdecode⟩
    · left
      rw [if_neg range]
      exact ⟨_, rfl⟩

/-- The value read from the registers of a raw value is written as these registers again. Every
value is an error before any write, or it is written as registers of its rounded raw value, which
are read back as a value within the half of the ratio. -/
theorem round_trip (hindex : a.index = some index) (integer : a.type.IsInteger)
    (ratio : a.ratio ≠ 0) :
    (a.isInput = false →
      (∀ decimals, a.decimals = some decimals → (10 : ℚ) ^ (-decimals) < |a.ratio|) →
      ∀ low high raw, a.type.rawRange = some (low, high) → low ≤ raw → raw ≤ high →
        ∃ registers value, a.type.encode raw = some registers ∧
          registers.length = a.type.count ∧ a.type.decode registers = some (.finite raw) ∧
          (∀ read : Reader, read index a.type.count a.isInput = .ok registers →
            a.read read = .ok (some (.finite value))) ∧
          (a.write value : SetScript ι Unit) =
            ⟨[.writeRegisters index registers true a.pin], .ok ()⟩) ∧
    ∀ value : ℚ, (∃ text, (a.write value : SetScript ι Unit) = ⟨[], .error (.value text)⟩) ∨
      ∃ registers, (a.write value : SetScript ι Unit) =
          ⟨[.writeRegisters index registers true a.pin], .ok ()⟩ ∧
        registers.length = a.type.count ∧ (∀ register ∈ registers, register.toNat ≤ 65535) ∧
        a.type.decode registers = some (.finite (roundHalfEven ((value - a.offset) / a.ratio))) ∧
        (a.decimals = .none → ∀ read : Reader,
          read index a.type.count a.isInput = .ok registers →
          ∃ back, a.read read = .ok (some (.finite back)) ∧ |back - value| ≤ |a.ratio| / 2) := by
  obtain ⟨low, high, codec⟩ := integer.codec
  constructor
  · intro writable finer low' high' raw hrange hlow hhigh
    rw [codec.range] at hrange
    obtain ⟨rfl, rfl⟩ := Prod.mk.inj (Option.some.inj hrange)
    obtain ⟨registers, hencode, hlength, hdecode⟩ := codec.decode_encode raw hlow hhigh
    refine ⟨registers, a.value raw, hencode, hlength, hdecode,
      fun read hread => a.read_eq hindex integer hread hdecode, ?_⟩
    rw [a.write_eq _ codec writable, a.raw_value raw ratio finer, if_pos ⟨hlow, hhigh⟩]
    exact a.writeRaw_encode hindex integer hencode
  · intro value
    rcases a.write_cases (ι := ι) value hindex integer codec with
      rejected | ⟨registers, hwrite, hlength, hdecode⟩
    · exact .inl rejected
    · refine .inr ⟨registers, hwrite, hlength, ?_, hdecode, ?_⟩
      · intro register _
        have := register.isLt
        omega
      · intro exact read hread
        exact ⟨_, a.read_eq hindex integer hread hdecode, a.abs_value_raw_le value ratio exact⟩

/-- A falling characteristic in two registers, the low word first. -/
def falling : Accessor :=
  { index := some 5, type := .int32 .little, ratio := -1 / 3, offset := 2, decimals := some 1 }

theorem round_trip_falling :
    ∃ registers value, falling.type.encode (-40000 : ℤ) = some registers ∧
      (∀ read : Reader, read 5 2 false = .ok registers →
        falling.read read = .ok (some (.finite value))) ∧
      (falling.write value : SetScript Unit Unit) =
        ⟨[.writeRegisters 5 registers true true], .ok ()⟩ := by
  have finer : ∀ decimals, falling.decimals = some decimals →
      (10 : ℚ) ^ (-decimals) < |falling.ratio| := by
    intro decimals h
    obtain rfl := Option.some.inj h
    norm_num [falling, abs_of_neg]
  obtain ⟨registers, value, hencode, -, -, hread, hwrite⟩ :=
    (round_trip (ι := Unit) falling rfl trivial (by norm_num [falling])).1 rfl finer
      (-0x80000000) 0x7FFFFFFF (-40000) rfl (by decide) (by decide)
  exact ⟨registers, value, hencode, hread, hwrite⟩

end Accessor

end Modbus

end Evok
