import Evok.Modbus.RoundTrip

/-!
# Round trips of the floats

A float read from two registers and written again gives the registers. A number is rounded to the
nearest double and written as the float nearest to this double, of two the one with the even bits. It
is refused if it would be rounded to infinity.

## Main definitions

* `IsNearestDouble`, `IsNearestFloat` : the double and the float nearest to a number.

## Main results

* `toDouble_isSome` : the range of the doubles.
* `DataType.float32_round_trip` : the two round trips.
* `DataType.encode_float32_eq_none` : the numbers which are refused.
-/

namespace Evok

namespace Modbus

open BinaryFloat (value code)

/-- The codes from this one on are not finite. -/
def infinityCode : ℕ :=
  255 * 2 ^ 23

/-- The code of the magnitude of a float. -/
def magnitude (bits : BitVec 32) : ℕ :=
  bits.toNat % 2 ^ 31

theorem toNat_eq (bits : BitVec 32) :
    bits.toNat = (if bits.msb then 2 ^ 31 else 0) + magnitude bits := by
  have hlt := bits.isLt
  have hmsb := bits.msb_eq_decide
  unfold magnitude
  cases h : bits.msb with
  | true =>
    rw [h] at hmsb
    have := of_decide_eq_true hmsb.symm
    simp only [if_true]
    omega
  | false =>
    rw [h] at hmsb
    have := of_decide_eq_false hmsb.symm
    simp only [Bool.false_eq_true, if_false]
    omega

/-- The value of a float by its code. -/
theorem decodeFloat32_eq (bits : BitVec 32) :
    decodeFloat32 bits = if magnitude bits < infinityCode then
        .finite (if bits.msb then -value 23 (-126) (magnitude bits)
          else value 23 (-126) (magnitude bits))
      else if magnitude bits = infinityCode then .infinite bits.msb else .nan := by
  have hexp : (bits.toNat / 2 ^ 23 % 2 ^ 8 : ℤ) = (magnitude bits / 2 ^ 23 : ℕ) := by
    have : bits.toNat / 2 ^ 23 % 2 ^ 8 = magnitude bits / 2 ^ 23 := by
      unfold magnitude
      omega
    exact_mod_cast this
  have hman : (bits.toNat % 2 ^ 23 : ℤ) = (magnitude bits % 2 ^ 23 : ℕ) := by
    have : bits.toNat % 2 ^ 23 = magnitude bits % 2 ^ 23 := by
      unfold magnitude
      omega
    exact_mod_cast this
  have hlt : magnitude bits < 2 ^ 31 := Nat.mod_lt _ (by decide)
  unfold decodeFloat32
  simp only [hexp, hman]
  by_cases hfinite : magnitude bits < infinityCode
  · have hne : ¬((magnitude bits / 2 ^ 23 : ℕ) : ℤ) = 255 := by
      unfold infinityCode at hfinite
      omega
    rw [if_neg hne, if_pos hfinite]
    unfold value
    by_cases hzero : magnitude bits / 2 ^ 23 = 0
    · have hscale : (-126 - (23 : ℕ) : ℤ) = -149 := by norm_num
      simp only [hzero, Nat.cast_zero, if_true, hscale, Int.cast_natCast]
    · have hzero' : ¬((magnitude bits / 2 ^ 23 : ℕ) : ℤ) = 0 := by exact_mod_cast hzero
      rw [if_neg hzero, if_neg hzero']
      have hscale : (-126 - (23 : ℕ) + ((magnitude bits / 2 ^ 23 : ℕ) - 1) : ℤ) =
          (magnitude bits / 2 ^ 23 : ℕ) - 150 := by
        push_cast
        ring
      rw [hscale]
      push_cast
      rfl
  · have heq : ((magnitude bits / 2 ^ 23 : ℕ) : ℤ) = 255 := by
      unfold infinityCode at hfinite
      omega
    have hmantissa : ((magnitude bits % 2 ^ 23 : ℕ) : ℤ) = 0 ↔ magnitude bits = infinityCode := by
      unfold infinityCode at hfinite ⊢
      omega
    rw [if_pos heq, if_neg hfinite]
    simp only [hmantissa]

/-- The float of a number by the code of its magnitude. -/
theorem encodeFloat32_eq {q : ℚ} (hq : q ≠ 0) :
    encodeFloat32 q = if (infinityCode : ℤ) ≤ code 23 (-126) |q| then none
      else some (BitVec.ofInt 32
        (if q < 0 then code 23 (-126) |q| + 2 ^ 31 else code 23 (-126) |q|)) := by
  unfold encodeFloat32
  rw [if_neg hq]
  rfl

/-- The bits with a sign and a code. -/
theorem ofInt_bits {c : ℕ} (hc : c < 2 ^ 31) (negative : Prop) [Decidable negative] :
    magnitude (BitVec.ofInt 32 (if negative then (c : ℤ) + 2 ^ 31 else c)) = c ∧
      (BitVec.ofInt 32 (if negative then (c : ℤ) + 2 ^ 31 else c)).msb = decide negative := by
  by_cases h : negative
  · have hnat : (BitVec.ofInt 32 (if negative then (c : ℤ) + 2 ^ 31 else c)).toNat =
        c + 2 ^ 31 := by
      rw [if_pos h, BitVec.toNat_ofInt]
      omega
    unfold magnitude
    rw [BitVec.msb_eq_decide, hnat]
    simp only [h, decide_true, decide_eq_true_eq]
    omega
  · have hnat : (BitVec.ofInt 32 (if negative then (c : ℤ) + 2 ^ 31 else c)).toNat = c := by
      rw [if_neg h, BitVec.toNat_ofInt]
      omega
    unfold magnitude
    rw [BitVec.msb_eq_decide, hnat]
    simp only [h, decide_false, decide_eq_false_iff_not]
    omega

theorem magnitude_lt (bits : BitVec 32) : magnitude bits < 2 ^ 31 :=
  Nat.mod_lt _ (by decide)

theorem decodeFloat32_finite {bits : BitVec 32} {q : ℚ} :
    decodeFloat32 bits = .finite q ↔ magnitude bits < infinityCode ∧
      q = if bits.msb then -value 23 (-126) (magnitude bits)
        else value 23 (-126) (magnitude bits) := by
  rw [decodeFloat32_eq]
  split
  · next h =>
    rw [Number.finite.injEq]
    exact ⟨fun heq => ⟨h, heq.symm⟩, fun heq => heq.2.symm⟩
  · next h =>
    split
    · exact ⟨fun heq => (by cases heq), fun heq => absurd heq.1 h⟩
    · exact ⟨fun heq => (by cases heq), fun heq => absurd heq.1 h⟩

theorem abs_of_decode {bits : BitVec 32} {q : ℚ} (h : decodeFloat32 bits = .finite q) :
    |q| = value 23 (-126) (magnitude bits) := by
  have hvalue := @BinaryFloat.value_nonneg 23 (-126) (magnitude bits)
  rw [(decodeFloat32_finite.mp h).2]
  split
  · rw [abs_neg, abs_of_nonneg hvalue]
  · rw [abs_of_nonneg hvalue]

/-- A float is encoded to its bits, but -0 to 0. -/
theorem encode_decodeFloat32 {bits : BitVec 32} {q : ℚ} (h : decodeFloat32 bits = .finite q)
    (hq : q ≠ 0) : encodeFloat32 q = some bits := by
  obtain ⟨hfinite, hsign⟩ := decodeFloat32_finite.mp h
  have habs := abs_of_decode h
  have hpos : 0 < magnitude bits := by
    rw [Nat.pos_iff_ne_zero]
    intro hzero
    rw [hzero, BinaryFloat.value_zero, abs_eq_zero] at habs
    exact hq habs
  have hcode : code 23 (-126) |q| = magnitude bits := by
    rw [habs]
    exact BinaryFloat.code_value (by decide) hpos
  have hnegative : q < 0 ↔ bits.msb = true := by
    have hvalue : 0 < value 23 (-126) (magnitude bits) := habs ▸ abs_pos.mpr hq
    rw [hsign]
    cases bits.msb <;> simp [hvalue, hvalue.le]
  rw [encodeFloat32_eq hq, hcode, if_neg (by exact_mod_cast Nat.not_le.mpr hfinite)]
  congr 1
  obtain ⟨hmagnitude, hmsb⟩ := ofInt_bits (magnitude_lt bits) (q < 0)
  refine BitVec.eq_of_toNat_eq ?_
  rw [toNat_eq, toNat_eq bits, hmagnitude, hmsb]
  simp only [hnegative, decide_eq_true_eq]

/-- `v` is the float nearest to `q` with the bits `bits`, of two the one with even bits. -/
structure IsNearestFloat (q : ℚ) (bits : BitVec 32) (v : ℚ) : Prop where
  decode : decodeFloat32 bits = .finite v
  nearest : ∀ bits' v', decodeFloat32 bits' = .finite v' → |q - v| ≤ |q - v'|
  even : ∀ bits' v', decodeFloat32 bits' = .finite v' → v' ≠ v → |q - v| = |q - v'| →
    Even bits.toNat

/-- A number is encoded to the nearest float. -/
theorem decode_encodeFloat32 {q : ℚ} {bits : BitVec 32} (h : encodeFloat32 q = some bits) :
    ∃ v, IsNearestFloat q bits v := by
  rcases eq_or_ne q 0 with rfl | hq
  · obtain rfl : 0 = bits := by simpa [encodeFloat32] using h
    have hdecode : decodeFloat32 0 = .finite 0 :=
      decodeFloat32_finite.mpr ⟨by decide, by simp [magnitude]⟩
    refine ⟨0, hdecode, fun _ v' _ => by simp, fun _ v' _ hne htie => ?_⟩
    rw [sub_self, abs_zero, eq_comm, abs_eq_zero, zero_sub, neg_eq_zero] at htie
    exact absurd htie hne
  · rw [encodeFloat32_eq hq] at h
    obtain ⟨c, hc, hnearest⟩ :=
      BinaryFloat.isNearestCode (p := 23) (-126) (by decide) (abs_pos.mpr hq)
    rw [hc] at h
    split at h
    · cases h
    · next hlt =>
      have hlt : c < infinityCode := by exact_mod_cast not_le.mp hlt
      obtain ⟨hmagnitude, hmsb⟩ := ofInt_bits (c := c) (hlt.trans (by decide)) (q < 0)
      rw [Option.some.inj h] at hmagnitude hmsb
      have hdecode := decodeFloat32_finite.mpr ⟨hmagnitude.symm ▸ hlt, rfl⟩
      rw [hmagnitude, hmsb] at hdecode
      simp only [decide_eq_true_eq] at hdecode
      refine ⟨_, hdecode, fun bits' v' h' => (hnearest.signed hq rfl (abs_of_decode h')).1,
        fun bits' v' h' hne htie => ?_⟩
      have heven := (hnearest.signed hq rfl (abs_of_decode h')).2 hne htie
      rw [toNat_eq, hmagnitude]
      split
      · exact (by decide : Even (2 ^ 31)).add heven
      · simpa using heven

/-- A number is refused if it would be rounded to infinity. -/
theorem encodeFloat32_eq_none {q : ℚ} :
    encodeFloat32 q = none ↔ 2 ^ 128 - 2 ^ 103 ≤ |q| := by
  rcases eq_or_ne q 0 with rfl | hq
  · simp only [abs_zero, encodeFloat32, if_true, reduceCtorEq, false_iff]
    norm_num
  · obtain ⟨c, hc, hnearest⟩ :=
      BinaryFloat.isNearestCode (p := 23) (-126) (by decide) (abs_pos.mpr hq)
    have hmiddle : (value 23 (-126) (infinityCode - 1) + value 23 (-126) infinityCode) / 2 =
        2 ^ 128 - 2 ^ 103 := by
      norm_num [value, infinityCode]
    have hiff : infinityCode ≤ c ↔ _ := hnearest.le_iff (n := infinityCode - 1) (by decide)
    have hcast : (infinityCode : ℤ) ≤ c ↔ infinityCode ≤ c := Nat.cast_le
    rw [encodeFloat32_eq hq, hc, ← hmiddle]
    refine Iff.trans ?_ (hcast.trans hiff)
    split
    · next h => simp [h]
    · next h => simp [h]

/-! ## Doubles -/

/-- A finite double. -/
def IsDouble (v : ℚ) : Prop :=
  ∃ n < infinityCode64, |v| = value 52 (-1022) n

/-- `w` is the double nearest to `q`, of two the one with an even code. -/
structure IsNearestDouble (q w : ℚ) : Prop where
  double : IsDouble w
  nearest : ∀ w', IsDouble w' → |q - w| ≤ |q - w'|
  even : ∀ w', IsDouble w' → w' ≠ w → |q - w| = |q - w'| →
    ∃ n, |w| = value 52 (-1022) n ∧ Even n

theorem toDouble_eq {q : ℚ} (hq : q ≠ 0) {c : ℕ} (hc : code 52 (-1022) |q| = c) :
    toDouble q = if infinityCode64 ≤ c then none
      else some (if q < 0 then -value 52 (-1022) c else value 52 (-1022) c) := by
  unfold toDouble
  rw [if_neg hq]
  simp only [hc, Int.toNat_natCast, Nat.cast_le]

/-- A number is rounded to the nearest double. -/
theorem isNearestDouble {q w : ℚ} (h : toDouble q = some w) : IsNearestDouble q w := by
  rcases eq_or_ne q 0 with rfl | hq
  · obtain rfl : 0 = w := by simpa [toDouble] using h
    refine ⟨⟨0, by decide, by simp⟩, fun w' _ => by simp, fun w' _ hne htie => ?_⟩
    rw [sub_self, abs_zero, eq_comm, abs_eq_zero, zero_sub, neg_eq_zero] at htie
    exact absurd htie hne
  · obtain ⟨c, hc, hnearest⟩ :=
      BinaryFloat.isNearestCode (p := 52) (-1022) (by decide) (abs_pos.mpr hq)
    rw [toDouble_eq hq hc] at h
    split at h
    · cases h
    · next hlt =>
      have hw := (Option.some.inj h).symm
      have habs : |w| = value 52 (-1022) c := by
        rw [hw]
        split
        · rw [abs_neg, abs_of_nonneg (BinaryFloat.value_nonneg c)]
        · rw [abs_of_nonneg (BinaryFloat.value_nonneg c)]
      refine ⟨⟨c, not_le.mp hlt, habs⟩, ?_, ?_⟩
      · rintro w' ⟨n, -, hw'⟩
        exact (hnearest.signed hq hw hw').1
      · rintro w' ⟨n, -, hw'⟩ hne htie
        exact ⟨c, habs, (hnearest.signed hq hw hw').2 hne htie⟩

theorem inRange_iff {q : ℚ} : inRange q = true ↔ |q| < (2 ^ 54 - 1) * 2 ^ 970 := by
  have hpow : 2 ^ 1024 - 2 ^ 970 = (2 ^ 54 - 1) * 2 ^ 970 := by
    rw [show 1024 = 54 + 970 from rfl, pow_add, Nat.sub_mul, Nat.one_mul]
  have habs : |q| = q.num.natAbs / q.den := by
    rw [Nat.cast_natAbs, Int.cast_abs, ← abs_of_pos (by exact_mod_cast q.den_pos : (0 : ℚ) < q.den),
      ← abs_div, Rat.num_div_den]
  -- the power stays a variable, it is not evaluated
  have hcast : ∀ k n d : ℕ, n < (2 ^ 54 - 1) * k * d ↔ (n : ℚ) < (2 ^ 54 - 1) * k * d := by
    intro k n d
    rw [← Nat.cast_lt (α := ℚ)]
    norm_num
  unfold inRange
  rw [hpow, habs, div_lt_iff₀ (by exact_mod_cast q.den_pos), decide_eq_true_eq, hcast, Nat.cast_pow,
    Nat.cast_ofNat]

/-- A number in the range is one with a finite double. -/
theorem toDouble_isSome {q : ℚ} : (toDouble q).isSome = inRange q := by
  rw [Bool.eq_iff_iff, inRange_iff]
  rcases eq_or_ne q 0 with rfl | hq
  · simp only [toDouble, if_true, Option.isSome_some, abs_zero, true_iff]
    exact mul_pos (by norm_num) (pow_pos two_pos _)
  · obtain ⟨c, hc, hnearest⟩ :=
      BinaryFloat.isNearestCode (p := 52) (-1022) (by decide) (abs_pos.mpr hq)
    have hiff : infinityCode64 ≤ c ↔ _ := hnearest.le_iff (n := infinityCode64 - 1) (by decide)
    have hmiddle : (value 52 (-1022) (infinityCode64 - 1) +
        value 52 (-1022) (infinityCode64 - 1 + 1)) / 2 = (2 ^ 54 - 1) * 2 ^ 970 := by
      have hlast : value 52 (-1022) (infinityCode64 - 1) = (2 ^ 53 - 1) * (2 * 2 ^ 970) := by
        rw [← pow_succ', ← zpow_natCast]
        norm_num [value, infinityCode64]
      have hfirst : value 52 (-1022) (infinityCode64 - 1 + 1) = 2 ^ 53 * (2 * 2 ^ 970) := by
        rw [← pow_succ', ← zpow_natCast]
        norm_num [value, infinityCode64]
        rw [pow_succ (2 : ℚ) 971]
        generalize (2 : ℚ) ^ 971 = unit
        ring
      rw [hlast, hfirst]
      generalize (2 : ℚ) ^ 970 = unit
      ring
    rw [hmiddle] at hiff
    rw [← not_le, ← hiff, toDouble_eq hq hc]
    split
    · next h => simp [h]
    · next h => simp [h]

/-- A float is a double. -/
theorem toDouble_of_decode {bits : BitVec 32} {q : ℚ} (h : decodeFloat32 bits = .finite q) :
    toDouble q = some q := by
  rcases eq_or_ne q 0 with rfl | hq
  · rfl
  · obtain ⟨hfinite, -⟩ := decodeFloat32_finite.mp h
    have habs := abs_of_decode h
    have hpos : 0 < magnitude bits := by
      rw [Nat.pos_iff_ne_zero]
      intro hzero
      rw [hzero, BinaryFloat.value_zero, abs_eq_zero] at habs
      exact hq habs
    obtain ⟨c, hc, hvalue⟩ :=
      @BinaryFloat.code_exact 23 (-126) 52 (-1022) (by decide) (by decide) _ hpos
    rw [← habs] at hc hvalue
    -- the double of the first number over the floats
    have hbound : value 23 (-126) infinityCode = value 52 (-1022) (1151 * 2 ^ 52) := by
      norm_num [value, infinityCode]
    have hlt : c < 1151 * 2 ^ 52 := by
      rw [← (BinaryFloat.value_strictMono 52 (-1022)).lt_iff_lt, hvalue, habs, ← hbound]
      exact BinaryFloat.value_strictMono 23 (-126) hfinite
    have hfinite64 : c < infinityCode64 := hlt.trans (by decide)
    rw [toDouble_eq hq hc, if_neg (not_le.mpr hfinite64), hvalue]
    split
    · next hnegative => rw [abs_of_neg hnegative, neg_neg]
    · next hnegative => rw [abs_of_nonneg (not_lt.mp hnegative)]

/-- The double from which on the floats are infinite. -/
def refusedCode : ℕ :=
  1151 * 2 ^ 52 - 2 ^ 28

theorem value_refusedCode : value 52 (-1022) refusedCode = 2 ^ 128 - 2 ^ 103 := by
  norm_num [value, refusedCode]

/-- A number is refused if its double would be rounded to an infinite float. -/
theorem toDouble_encodeFloat32_eq_none {q : ℚ} :
    (toDouble q).bind encodeFloat32 = none ↔ 2 ^ 128 - 2 ^ 103 - 2 ^ 74 ≤ |q| := by
  rcases eq_or_ne q 0 with rfl | hq
  · have hzero : (toDouble 0).bind encodeFloat32 = some 0 := rfl
    simp only [hzero, abs_zero, reduceCtorEq, false_iff]
    norm_num
  · obtain ⟨c, hc, hnearest⟩ :=
      BinaryFloat.isNearestCode (p := 52) (-1022) (by decide) (abs_pos.mpr hq)
    have hmono := BinaryFloat.value_strictMono 52 (-1022)
    have hmiddle : (value 52 (-1022) (refusedCode - 1) + value 52 (-1022) refusedCode) / 2 =
        2 ^ 128 - 2 ^ 103 - 2 ^ 74 := by
      norm_num [value, refusedCode]
    have hiff : refusedCode ≤ c ↔ _ := hnearest.le_iff (n := refusedCode - 1) (by decide)
    rw [← hmiddle]
    refine Iff.trans ?_ hiff
    rw [toDouble_eq hq hc]
    split
    · next hinfinite =>
      simp only [Option.bind_none, true_iff]
      exact le_trans (by decide) hinfinite
    · have habs : |if q < 0 then -value 52 (-1022) c else value 52 (-1022) c| =
          value 52 (-1022) c := by
        split
        · rw [abs_neg, abs_of_nonneg (BinaryFloat.value_nonneg c)]
        · rw [abs_of_nonneg (BinaryFloat.value_nonneg c)]
      rw [Option.bind_some, encodeFloat32_eq_none, habs, ← value_refusedCode, hmono.le_iff_le]

/-! ## Registers -/

namespace DataType

theorem split_join (order : WordOrder) {registers : List Word} (h : registers.length = 2) :
    split order (join order registers) = registers := by
  obtain ⟨a, b, rfl⟩ := List.length_eq_two.mp h
  have hhigh : ∀ a b : Word, (a ++ b : BitVec 32).extractLsb' 16 16 = a :=
    fun a b => BitVec.extractLsb'_append_eq_left
  have hlow : ∀ a b : Word, (a ++ b : BitVec 32).extractLsb' 0 16 = b :=
    fun a b => BitVec.extractLsb'_append_eq_right
  cases order <;> simp [split, join, hhigh, hlow]

/-- The registers of a finite number other than 0 are written again; a number is rounded to the
nearest double, it is written as the float nearest to this double, of two the one with even bits, and
read back as this float. -/
theorem float32_round_trip (order : WordOrder) :
    (∀ (registers : List Word) (q : ℚ), registers.length = 2 →
      (float32 order).decode registers = some (.finite q) → q ≠ 0 →
      (float32 order).encode q = some registers) ∧
    ∀ (q : ℚ) (registers : List Word), (float32 order).encode q = some registers →
      registers.length = 2 ∧ ∃ w v, IsNearestDouble q w ∧
        (float32 order).decode registers = some (.finite v) ∧
        (∀ registers' v', (float32 order).decode registers' = some (.finite v') →
          |w - v| ≤ |w - v'|) ∧
        ∀ registers' v', (float32 order).decode registers' = some (.finite v') → v' ≠ v →
          |w - v| = |w - v'| → Even (join order registers).toNat := by
  constructor
  · intro registers q hlength hdecode hq
    have hfloat := Option.some.inj hdecode
    have hbits := encode_decodeFloat32 hfloat hq
    simp only [encode, toDouble_of_decode hfloat, Option.bind_some, hbits, Option.map_some,
      split_join order hlength]
  · intro q registers hencode
    obtain ⟨bits, hdouble, rfl⟩ := Option.map_eq_some_iff.mp hencode
    obtain ⟨w, hw, hbits⟩ := Option.bind_eq_some_iff.mp hdouble
    obtain ⟨v, hv⟩ := decode_encodeFloat32 hbits
    have hjoin := join_split order bits
    refine ⟨by cases order <;> rfl, w, v, isNearestDouble hw, ?_, fun registers' v' h' => ?_,
      fun registers' v' h' hne htie => ?_⟩
    · rw [decode, hjoin, hv.decode]
    · exact hv.nearest _ v' (Option.some.inj h')
    · rw [hjoin]
      exact hv.even _ v' (Option.some.inj h') hne htie

theorem float32_round_trip_half : (float32 .big).encode (1 / 2) = some [0x3F00, 0] := by
  have hdecode : (float32 .big).decode [0x3F00, 0] = some (.finite (1 / 2)) := by
    show some (decodeFloat32 0x3F000000#32) = _
    norm_num [decodeFloat32]
    rfl
  exact (float32_round_trip .big).1 _ _ rfl hdecode (by norm_num)

-- the float nearest to the number itself is 0x5D800001
example : (float32 .big).encode (2 ^ 60 + 2 ^ 36 + 1) = some [0x5D80, 0] := by decide +kernel

/-- The numbers which no float is written for: the double nearest to them is half a step over the
largest float, or beyond. -/
theorem encode_float32_eq_none (order : WordOrder) (q : ℚ) :
    (float32 order).encode q = none ↔ 2 ^ 128 - 2 ^ 103 - 2 ^ 74 ≤ |q| := by
  rw [encode, Option.map_eq_none_iff, toDouble_encodeFloat32_eq_none]

theorem encode_float32_eq_none_below : (float32 .big).encode (2 ^ 128 - 2 ^ 103 - 1) = none :=
  (encode_float32_eq_none .big _).mpr (by norm_num)

end DataType

end Modbus

end Evok
