import Evok.Modbus.Pwm

/-!
# The divider of the hardware PWM

`HardPwmFrequency.divide` of an accepted frequency, in terms of the time of a period in timer
cycles, 48 MHz / frequency.

## Main definitions

* `HardPwm.Divides`: what `divide` returns for an accepted frequency.
* `HardPwm.Longest`: the frequencies of the longest cycle.

## Main results

* `HardPwm.Divides.of_divide`: the spec of `divide`.
* `HardPwm.Divides.le_cycle`, `cycle_le`, `prescale_le`: the bounds of cycle and prescale.
* `HardPwm.Divides.longest_iff`: the cycle of 65536.
* `HardPwm.divide_finest`: the smallest prescale and the error of the frequency.
-/

namespace Evok

namespace Modbus

namespace HardPwm

variable {freq : ℚ} {cycle prescale : ℕ}

/-- The smallest prescale for the period, and the nearest cycle. -/
structure Divides (freq : ℚ) (cycle prescale : ℕ) : Prop where
  accepted : baseFreq / maxRegister ^ 2 ≤ freq ∧ freq ≤ maxFreq
  pos : 0 < prescale
  lower : ((prescale : ℚ) - 1) * 65536 < baseFreq / freq
  upper : baseFreq / freq ≤ prescale * 65536
  cycle : roundHalfEven (baseFreq / freq / prescale) = cycle

/-- The period is between 960 cycles and 65536 cycles of the largest prescale. -/
theorem period_bounds (accepted : baseFreq / maxRegister ^ 2 ≤ freq ∧ freq ≤ maxFreq) :
    0 < freq ∧ 960 ≤ baseFreq / freq ∧ baseFreq / freq ≤ 65536 * 65536 := by
  obtain ⟨low, high⟩ := accepted
  simp only [baseFreq, maxRegister, maxFreq] at *
  have hpos : 0 < freq := lt_of_lt_of_le (by norm_num) low
  refine ⟨hpos, ?_, ?_⟩
  · rw [le_div_iff₀ hpos]
    linarith
  · rw [div_le_iff₀ hpos]
    rw [div_le_iff₀ (by norm_num)] at low
    push_cast at low
    linarith

theorem Divides.of_divide (h : divide freq = .ok (cycle, prescale)) :
    Divides freq cycle prescale := by
  unfold divide at h
  dsimp only at h
  split at h
  · next accepted =>
    obtain ⟨hpos, hlow, hhigh⟩ := period_bounds accepted
    set delay := baseFreq / freq
    -- the smallest prescale is the ceiling
    have hceil : 0 < ⌈delay / maxRegister⌉ := Int.ceil_pos.mpr (by
      simp only [maxRegister]
      positivity)
    obtain ⟨n, hn⟩ := Int.eq_ofNat_of_zero_le hceil.le
    have hle := Int.le_ceil (delay / maxRegister)
    have hlt := Int.ceil_lt_add_one (delay / maxRegister)
    rw [hn] at h hle hlt hceil
    simp only [maxRegister, Int.cast_natCast, Int.toNat_natCast] at *
    simp only [Except.ok.injEq, Prod.mk.injEq] at h
    obtain ⟨rfl, rfl⟩ := h
    have hupper : delay ≤ n * 65536 := by
      push_cast at hle
      linarith
    have hn0 : (0 : ℚ) < n := by exact_mod_cast hceil
    have hround : roundHalfEven (delay / n) ≤ 65536 :=
      roundHalfEven_le (by
        rw [div_le_iff₀ hn0]
        push_cast
        linarith)
    have hround0 : 0 ≤ roundHalfEven (delay / n) :=
      le_roundHalfEven (by
        push_cast
        positivity)
    constructor
    · exact accepted
    · omega
    · push_cast at hlt
      linarith
    · exact hupper
    · rw [min_eq_left (by exact_mod_cast hround), Int.toNat_of_nonneg hround0]
  · cases h

namespace Divides

variable (h : Divides freq cycle prescale)
include h

theorem period : 0 < freq ∧ 960 ≤ baseFreq / freq ∧ baseFreq / freq ≤ 65536 * 65536 :=
  period_bounds h.accepted

theorem prescale_pos : (0 : ℚ) < prescale :=
  Nat.cast_pos.mpr h.pos

theorem prescale_le : prescale ≤ 65536 := by
  have hlt : (prescale : ℚ) - 1 < 65536 := by linarith [h.lower, h.period.2.2]
  have : (prescale : ℚ) < 65537 := by linarith
  have : prescale < 65537 := by exact_mod_cast this
  omega

theorem cycle_le : cycle ≤ 65536 := by
  have : roundHalfEven (baseFreq / freq / prescale) ≤ 65536 :=
    roundHalfEven_le (by
      rw [div_le_iff₀ h.prescale_pos]
      push_cast
      linarith [h.upper])
  rw [h.cycle] at this
  exact_mod_cast this

/-- A period of several prescales has a cycle of at least 32768. -/
theorem le_period : 960 ≤ baseFreq / freq / prescale := by
  rw [le_div_iff₀ h.prescale_pos]
  rcases (Nat.succ_le_of_lt h.pos).eq_or_lt with one | more
  · rw [← one]
    push_cast
    linarith [h.period.2.1]
  · have : (2 : ℚ) ≤ prescale := by exact_mod_cast more
    linarith [h.lower]

theorem le_cycle : 960 ≤ cycle := by
  have : 960 ≤ roundHalfEven (baseFreq / freq / prescale) :=
    le_roundHalfEven (by exact_mod_cast h.le_period)
  rw [h.cycle] at this
  exact_mod_cast this

theorem cycle_pos : (0 : ℚ) < cycle :=
  Nat.cast_pos.mpr (lt_of_lt_of_le (by decide) h.le_cycle)

/-- No smaller prescale keeps the cycle in its register. -/
theorem prescale_le_iff {other : ℕ} (pos : 0 < other) :
    baseFreq / (freq * other) ≤ 65536 ↔ prescale ≤ other := by
  have hother : (0 : ℚ) < other := Nat.cast_pos.mpr pos
  rw [← div_div, div_le_iff₀ hother]
  constructor
  · intro fits
    have hlt : (prescale : ℚ) - 1 < other := by linarith [h.lower]
    have : (prescale : ℚ) < (other + 1 : ℕ) := by
      push_cast
      linarith
    have : prescale < other + 1 := by exact_mod_cast this
    omega
  · intro le
    have : (prescale : ℚ) ≤ other := by exact_mod_cast le
    linarith [h.upper]

/-- A cycle with a larger prescale uses more than half of its register. -/
theorem half_le_cycle (more : 2 ≤ prescale) : 32768 ≤ cycle := by
  have hmore : (2 : ℚ) ≤ prescale := by exact_mod_cast more
  have hperiod : 32768 ≤ baseFreq / freq / prescale := by
    rw [le_div_iff₀ h.prescale_pos]
    linarith [h.lower]
  have : 32768 ≤ roundHalfEven (baseFreq / freq / prescale) :=
    le_roundHalfEven (by exact_mod_cast hperiod)
  rw [h.cycle] at this
  exact_mod_cast this

/-- The rounding of the cycle by one half at most is the only error of the frequency. -/
theorem abs_sub_freq_le : |baseFreq / (cycle * prescale) - freq| ≤ freq / (2 * cycle) := by
  have hfreq := h.period.1
  have hcycle := h.cycle_pos
  have hprescale := h.prescale_pos
  have hround : |baseFreq / freq / prescale - cycle| ≤ 1 / 2 := by
    have := abs_sub_roundHalfEven_le (baseFreq / freq / prescale)
    rwa [h.cycle, Int.cast_natCast] at this
  have herror : baseFreq / (cycle * prescale) - freq =
      freq / cycle * (baseFreq / freq / prescale - cycle) := by
    field_simp
  calc |baseFreq / (cycle * prescale) - freq|
      = freq / cycle * |baseFreq / freq / prescale - cycle| := by
        rw [herror, abs_mul, abs_of_pos (div_pos hfreq hcycle)]
    _ ≤ freq / cycle * (1 / 2) := by gcongr
    _ = freq / (2 * cycle) := by
        field_simp

end Divides

/-! ## Every frequency -/

theorem exists_divide (accepted : baseFreq / maxRegister ^ 2 ≤ freq ∧ freq ≤ maxFreq) :
    ∃ cycle prescale, divide freq = .ok (cycle, prescale) := by
  unfold divide
  dsimp only
  rw [if_pos accepted]
  exact ⟨_, _, rfl⟩

/-- Another frequency is an error. -/
theorem divide_rejected (rejected : ¬(baseFreq / maxRegister ^ 2 ≤ freq ∧ freq ≤ maxFreq)) :
    ∃ text, divide freq = .error (.value text) := by
  unfold divide
  dsimp only
  rw [if_neg rejected]
  exact ⟨_, rfl⟩

/-- The error of the divider is raised before any write. -/
theorem set_of_divide_error {ι : Type} (regcycle regprescale id : ℕ) (s : PwmState) {e : SetError}
    (h : divide freq = .error e) :
    ((PwmFrequency.hard regcycle regprescale).set id s freq : SetScript ι PwmState) =
      ⟨[], .error e⟩ := by
  simp only [PwmFrequency.set, h, SetScript.ofExcept, Script.throw_eq, Script.bind_error]

/-- The divider is correct and the finest one: of an accepted frequency the prescale is the
smallest one, the frequency of the timer differs from the requested one by the rounding of the
cycle only, another frequency writes nothing. -/
theorem divide_finest (freq : ℚ) :
    (48000000 / 65536 ^ 2 ≤ freq ∧ freq ≤ 50000 → ∃ cycle prescale,
      divide freq = .ok (cycle, prescale) ∧
      (1 ≤ prescale ∧ prescale ≤ 65536) ∧ (960 ≤ cycle ∧ cycle ≤ 65536) ∧
      (∀ other : ℕ, 0 < other → (48000000 / (freq * other) ≤ 65536 ↔ prescale ≤ other)) ∧
      (2 ≤ prescale → 32768 ≤ cycle) ∧
      |(48000000 / (cycle * prescale) - freq : ℚ)| ≤ freq / (2 * cycle)) ∧
    (¬(48000000 / 65536 ^ 2 ≤ freq ∧ freq ≤ 50000) → ∃ text,
      divide freq = .error (.value text) ∧
      ∀ (ι : Type) (regcycle regprescale id : ℕ) (s : PwmState),
        ((PwmFrequency.hard regcycle regprescale).set id s freq : SetScript ι PwmState) =
          ⟨[], .error (.value text)⟩) := by
  have hrange : 48000000 / 65536 ^ 2 ≤ freq ∧ freq ≤ 50000 ↔
      baseFreq / maxRegister ^ 2 ≤ freq ∧ freq ≤ maxFreq := by
    simp only [baseFreq, maxRegister, maxFreq, Nat.cast_ofNat]
  rw [hrange]
  constructor
  · intro accepted
    obtain ⟨cycle, prescale, hdivide⟩ := exists_divide accepted
    have h := Divides.of_divide hdivide
    exact ⟨cycle, prescale, hdivide, ⟨h.pos, h.prescale_le⟩, ⟨h.le_cycle, h.cycle_le⟩,
      fun other pos => h.prescale_le_iff pos, h.half_le_cycle, h.abs_sub_freq_le⟩
  · intro rejected
    obtain ⟨text, htext⟩ := divide_rejected rejected
    exact ⟨text, htext, fun ι regcycle regprescale id s =>
      set_of_divide_error regcycle regprescale id s htext⟩

/-- A frequency with a prescale, and one which is too high. -/
theorem divide_finest_hundred :
    divide 100 = .ok (60000, 8) ∧ (∀ other : ℕ, 0 < other →
      ((48000000 / (100 * other) : ℚ) ≤ 65536 ↔ 8 ≤ other)) ∧
      ∃ text, divide 100000 = .error (.value text) := by
  obtain ⟨cycle, prescale, hdivide, -, -, hleast, -⟩ := (divide_finest 100).1 (by norm_num)
  obtain ⟨text, hrejected, -⟩ := (divide_finest 100000).2 (by norm_num)
  have hvalue : divide 100 = .ok (60000, 8) := by decide +kernel
  obtain ⟨rfl, rfl⟩ := Prod.mk.inj (Except.ok.inj (hvalue.symm.trans hdivide))
  exact ⟨hvalue, hleast, text, hrejected⟩

/-! ## The longest cycle -/

/-- A frequency just above a divisor of the slowest one of its prescale. -/
def Longest (freq : ℚ) : Prop :=
  ∃ prescale : ℕ, 0 < prescale ∧ (65536 - 1 / 2) * prescale ≤ baseFreq / freq ∧
    baseFreq / freq ≤ 65536 * prescale

/-- These frequencies, and no other ones, have the cycle 65536. -/
theorem Divides.longest_iff (h : Divides freq cycle prescale) : Longest freq ↔ cycle = 65536 := by
  have hcycle : cycle = 65536 ↔ 65536 - 1 / 2 ≤ baseFreq / freq / prescale := by
    have heven := le_roundHalfEven_iff_of_even (q := baseFreq / freq / prescale)
      (show Even (65536 : ℤ) by decide)
    rw [h.cycle] at heven
    push_cast at heven
    rw [← heven]
    have := h.cycle_le
    omega
  rw [hcycle, le_div_iff₀ h.prescale_pos]
  constructor
  · rintro ⟨other, hpos, hlow, hhigh⟩
    have hother : (0 : ℚ) < other := Nat.cast_pos.mpr hpos
    -- the period determines the prescale
    have hlt : (other : ℚ) < prescale + 1 := by
      have := h.period.2.2
      have hbound : (other : ℚ) ≤ 65537 := by linarith
      linarith [h.upper]
    have hlt' : (prescale : ℚ) < other + 1 := by linarith [h.lower]
    have hle : other < prescale + 1 := by exact_mod_cast hlt
    have hle' : prescale < other + 1 := by exact_mod_cast hlt'
    obtain rfl : other = prescale := by omega
    exact hlow
  · intro hlow
    exact ⟨prescale, h.pos, hlow, by linarith [h.upper]⟩

end HardPwm

end Modbus

end Evok
