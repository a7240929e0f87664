import Evok.Library.Rounding
import Mathlib.Data.Int.Log
import Mathlib.Algebra.Order.Floor.Semifield
import Mathlib.Order.Monotone.Basic
import Mathlib.Tactic.Positivity
import Mathlib.Tactic.Ring
import Mathlib.Tactic.FieldSimp

/-!
# Binary floating point numbers by their codes

The code of a non-negative number is its exponent field followed by the `p` bits of its fraction.
The values grow with the codes, so the nearest code is found by a rounding in the scale of the
number.

## Main definitions

* `BinaryFloat.value` : the value of a code.
* `BinaryFloat.code` : the code of the nearest value, of two the even one.

## Main results

* `BinaryFloat.value_strictMono` : the values grow with the codes.
* `BinaryFloat.isNearestCode` : no value is nearer, and a tie goes to the even code.
* `BinaryFloat.code_value` : the code of a value.
* `BinaryFloat.code_exact` : a wider format has the values of a narrower one.
* `BinaryFloat.IsNearestCode.signed` : the nearest value of a number with a sign.
* `BinaryFloat.IsNearestCode.le_iff` : an even code is reached from the middle below it on.
-/

namespace BinaryFloat

variable {p : ℕ} {emin : ℤ}

/-- The value of a code: exponent field 0 has no hidden bit. -/
def value (p : ℕ) (emin : ℤ) (n : ℕ) : ℚ :=
  if n / 2 ^ p = 0 then (n % 2 ^ p : ℕ) * 2 ^ (emin - p)
  else (2 ^ p + (n % 2 ^ p : ℕ)) * 2 ^ (emin - p + ((n / 2 ^ p : ℕ) - 1))

/-- The code of the value nearest to a positive number. -/
def code (p : ℕ) (emin : ℤ) (q : ℚ) : ℤ :=
  let exponent := max (Int.log 2 q) emin
  (exponent - emin) * 2 ^ p + roundHalfEven (q / 2 ^ (exponent - p))

/-! ## Codes in the scale of a number -/

/-- The significand `m` in the scale `e`, also the first one of the next scale. -/
theorem value_scaled {e m : ℕ} (hm : m ≤ 2 ^ (p + 1)) (h : 2 ^ p ≤ m ∨ e = 0) :
    value p emin (e * 2 ^ p + m) = m * 2 ^ (emin - p + e) := by
  have hpos : 0 < 2 ^ p := Nat.pow_pos (by decide)
  rcases Nat.lt_or_ge m (2 ^ p) with hlt | hge
  · obtain rfl := h.resolve_left (by omega)
    simp [value, Nat.div_eq_of_lt hlt, Nat.mod_eq_of_lt hlt]
  · obtain ⟨r, rfl⟩ := Nat.exists_eq_add_of_le hge
    have hr : r ≤ 2 ^ p := by
      rw [Nat.pow_succ] at hm
      omega
    rcases Nat.lt_or_ge r (2 ^ p) with hlt | hge'
    · have hdiv : (e * 2 ^ p + (2 ^ p + r)) / 2 ^ p = e + 1 := by
        rw [← Nat.add_assoc, ← Nat.succ_mul, Nat.mul_comm, Nat.mul_add_div hpos,
          Nat.div_eq_of_lt hlt]
      have hmod : (e * 2 ^ p + (2 ^ p + r)) % 2 ^ p = r := by
        rw [← Nat.add_assoc, ← Nat.succ_mul, Nat.mul_comm, Nat.mul_add_mod,
          Nat.mod_eq_of_lt hlt]
      rw [value, hdiv, hmod, if_neg (Nat.succ_ne_zero e)]
      push_cast
      ring_nf
    · obtain rfl := Nat.le_antisymm hr hge'
      have hdiv : (e * 2 ^ p + (2 ^ p + 2 ^ p)) / 2 ^ p = e + 2 := by
        rw [← Nat.add_assoc, ← Nat.succ_mul, ← Nat.succ_mul, Nat.mul_div_cancel _ hpos]
      have hmod : (e * 2 ^ p + (2 ^ p + 2 ^ p)) % 2 ^ p = 0 := by
        rw [← Nat.add_assoc, ← Nat.succ_mul, ← Nat.succ_mul, Nat.mul_mod_left]
      rw [value, hdiv, hmod, if_neg (Nat.succ_ne_zero (e + 1))]
      have hexp : emin - p + ((e + 2 : ℕ) - 1) = emin - p + e + 1 := by
        push_cast
        ring
      rw [hexp, zpow_add_one₀ two_ne_zero]
      push_cast
      ring

theorem exists_scaled (p n : ℕ) : ∃ e m, n = e * 2 ^ p + m ∧ m < 2 ^ (p + 1) ∧
    (2 ^ p ≤ m ∨ e = 0) := by
  have hpos : 0 < 2 ^ p := Nat.pow_pos (by decide)
  have hdiv := Nat.div_add_mod n (2 ^ p)
  have hmod := Nat.mod_lt n hpos
  cases hk : n / 2 ^ p with
  | zero =>
    rw [hk, Nat.mul_zero, Nat.zero_add] at hdiv
    exact ⟨0, n, by simp, by rw [Nat.pow_succ]; omega, .inr rfl⟩
  | succ k =>
    refine ⟨k, 2 ^ p + n % 2 ^ p, ?_, by rw [Nat.pow_succ]; omega, .inl (Nat.le_add_right _ _)⟩
    rw [hk, Nat.mul_succ, Nat.mul_comm] at hdiv
    omega

theorem value_strictMono (p : ℕ) (emin : ℤ) : StrictMono (value p emin) := by
  refine strictMono_nat_of_lt_succ fun n => ?_
  obtain ⟨e, m, rfl, hm, h⟩ := exists_scaled p n
  rw [Nat.add_assoc, value_scaled hm.le h, value_scaled hm (h.imp (by omega) id)]
  have hpos : (0 : ℚ) < 2 ^ (emin - p + e) := zpow_pos two_pos _
  push_cast
  nlinarith

@[simp] theorem value_zero (p : ℕ) (emin : ℤ) : value p emin 0 = 0 := by
  simp [value]

theorem value_nonneg (n : ℕ) : 0 ≤ value p emin n := by
  rw [← value_zero p emin]
  exact (value_strictMono p emin).monotone (Nat.zero_le n)

/-! ## The nearest code -/

/-- `c` is the code of a value nearest to `q`, of two the even one. -/
structure IsNearestCode (p : ℕ) (emin : ℤ) (q : ℚ) (c : ℕ) : Prop where
  nearest : ∀ n, |q - value p emin c| ≤ |q - value p emin n|
  even : ∀ n, n ≠ c → |q - value p emin c| = |q - value p emin n| → Even c

/-- The scale of a positive number. -/
theorem scale (p : ℕ) (emin : ℤ) {q : ℚ} (hq : 0 < q) :
    let e := max (Int.log 2 q) emin
    0 ≤ q / 2 ^ (e - p) ∧ q / 2 ^ (e - p) < 2 ^ (p + 1) ∧
      (2 ^ p ≤ q / 2 ^ (e - p) ∨ e = emin) := by
  intro e
  have hpos : (0 : ℚ) < 2 ^ (e - p) := zpow_pos two_pos _
  refine ⟨(div_pos hq hpos).le, ?_, ?_⟩
  · rw [div_lt_iff₀ hpos, ← zpow_natCast, ← zpow_add₀ two_ne_zero]
    have hlog : q < 2 ^ (Int.log 2 q + 1) := Int.lt_zpow_succ_log_self (by decide) q
    refine hlog.trans_le (zpow_le_zpow_right₀ one_le_two ?_)
    have := le_max_left (Int.log 2 q) emin
    push_cast
    omega
  · rcases le_total emin (Int.log 2 q) with hle | hle
    · left
      have he : e = Int.log 2 q := max_eq_left hle
      rw [le_div_iff₀ hpos, ← zpow_natCast, ← zpow_add₀ two_ne_zero]
      have hexp : (p : ℤ) + (e - p) = Int.log 2 q := by
        rw [he]
        ring
      rw [hexp]
      exact Int.zpow_log_le_self (by decide) hq
    · exact .inr (max_eq_right hle)

theorem isNearestCode (emin : ℤ) {q : ℚ} (hp : 0 < p) (hq : 0 < q) :
    ∃ c : ℕ, code p emin q = c ∧ IsNearestCode p emin q c := by
  obtain ⟨hx, hlt, hnormal⟩ := scale p emin hq
  obtain ⟨e, he⟩ : ∃ e, e = max (Int.log 2 q) emin := ⟨_, rfl⟩
  rw [← he] at hx hlt hnormal
  obtain ⟨E, hE⟩ : ∃ E : ℕ, e - emin = E :=
    ⟨(e - emin).toNat, (Int.toNat_of_nonneg (by
      have := le_max_right (Int.log 2 q) emin
      omega)).symm⟩
  obtain ⟨u, hu⟩ : ∃ u : ℚ, u = 2 ^ (e - p) := ⟨_, rfl⟩
  have hupos : 0 < u := by
    rw [hu]
    exact zpow_pos two_pos _
  obtain ⟨x, hxq⟩ : ∃ x, x = q / u := ⟨_, rfl⟩
  rw [← hu, ← hxq] at hx hlt hnormal
  have hq' : q = x * u := by
    rw [hxq]
    field_simp
  have hscaled : ∀ m : ℕ, m ≤ 2 ^ (p + 1) → (2 ^ p ≤ m ∨ E = 0) →
      value p emin (E * 2 ^ p + m) = m * u := by
    intro m hm h
    rw [value_scaled hm h, hu]
    congr 2
    omega
  -- the codes around the number
  obtain ⟨m₀, hm₀⟩ : ∃ m₀ : ℕ, ⌊x⌋ = m₀ :=
    ⟨⌊x⌋.toNat, (Int.toNat_of_nonneg (Int.floor_nonneg.mpr hx)).symm⟩
  have hle₀ : (m₀ : ℚ) ≤ x := by
    have := Int.floor_le x
    rwa [hm₀] at this
  have hlt₀ : x < m₀ + 1 := by
    have := Int.lt_floor_add_one x
    rwa [hm₀] at this
  have hm₀lt : m₀ + 1 ≤ 2 ^ (p + 1) := by
    have : (m₀ : ℚ) < 2 ^ (p + 1) := hle₀.trans_lt hlt
    exact_mod_cast this
  have hnormal₀ : 2 ^ p ≤ m₀ ∨ E = 0 := by
    rcases hnormal with hle | heq
    · left
      have hfloor : ((2 ^ p : ℕ) : ℤ) ≤ ⌊x⌋ := by
        rw [Int.le_floor]
        push_cast
        exact hle
      rw [hm₀] at hfloor
      exact_mod_cast hfloor
    · right
      omega
  have hbelow := hscaled m₀ (by omega) hnormal₀
  have habove := hscaled (m₀ + 1) hm₀lt (hnormal₀.imp (by omega) id)
  -- the rounded significand is one of them
  have hround : m₀ ≤ roundHalfEven x ∧ roundHalfEven x ≤ m₀ + 1 :=
    ⟨le_roundHalfEven (by exact_mod_cast hle₀), roundHalfEven_le (by
      push_cast
      exact hlt₀.le)⟩
  obtain ⟨m, hm⟩ : ∃ m : ℕ, roundHalfEven x = m :=
    ⟨(roundHalfEven x).toNat, (Int.toNat_of_nonneg (by omega)).symm⟩
  rw [hm] at hround
  have hvalue := hscaled m (by omega) (hnormal₀.imp (by omega) id)
  have hdist : ∀ k : ℕ, |q - k * u| = |x - k| * u := by
    intro k
    rw [hq', ← sub_mul, abs_mul, abs_of_pos hupos]
  have hnearest : ∀ k : ℕ, |x - m| ≤ |x - k| := by
    intro k
    have := abs_sub_roundHalfEven_le_abs x k
    rw [hm] at this
    exact_mod_cast this
  have htie : ∀ k : ℕ, k ≠ m → |x - m| = |x - k| → Even m := by
    intro k hk hdist
    have := even_of_tie (q := x) (n := k) (by rw [hm]; exact_mod_cast hk)
      (by rw [hm]; exact_mod_cast hdist)
    rw [hm] at this
    exact_mod_cast this
  have hmono := value_strictMono p emin
  -- a code is at or below the lower one, or at or above the upper one
  have hcases : ∀ n, (n ≤ E * 2 ^ p + m₀ ∧ |x - m₀| * u ≤ |q - value p emin n| ∧
      (|q - value p emin n| = |x - m₀| * u → n = E * 2 ^ p + m₀)) ∨
      (E * 2 ^ p + (m₀ + 1) ≤ n ∧ |x - (m₀ + 1 : ℕ)| * u ≤ |q - value p emin n| ∧
      (|q - value p emin n| = |x - (m₀ + 1 : ℕ)| * u → n = E * 2 ^ p + (m₀ + 1))) := by
    intro n
    rcases Nat.lt_or_ge (E * 2 ^ p + m₀) n with hn | hn
    · right
      have hval := hmono.monotone hn
      rw [Nat.succ_eq_add_one, Nat.add_assoc, habove] at hval
      have hqn : q ≤ (m₀ + 1 : ℕ) * u := by
        rw [hq']
        push_cast
        nlinarith
      rw [← hdist, abs_sub_comm q, abs_sub_comm q, abs_of_nonneg (by linarith),
        abs_of_nonneg (by linarith)]
      refine ⟨by omega, by linarith, fun heq => hmono.injective ?_⟩
      rw [habove]
      linarith
    · left
      have hval := hmono.monotone hn
      rw [hbelow] at hval
      have hqn : m₀ * u ≤ q := by
        rw [hq']
        nlinarith
      rw [← hdist, abs_of_nonneg (by linarith), abs_of_nonneg (by linarith)]
      refine ⟨hn, by linarith, fun heq => hmono.injective ?_⟩
      rw [hbelow]
      linarith
  refine ⟨E * 2 ^ p + m, ?_, fun n => ?_, fun n hne heq => ?_⟩
  · simp only [code, ← he, hE, ← hu, ← hxq, hm]
    push_cast
    rfl
  · rw [hvalue, hdist]
    rcases hcases n with ⟨-, hle, -⟩ | ⟨-, hle, -⟩
    · exact (mul_le_mul_of_nonneg_right (hnearest m₀) hupos.le).trans hle
    · exact (mul_le_mul_of_nonneg_right (hnearest (m₀ + 1)) hupos.le).trans hle
  · rw [hvalue, hdist] at heq
    have heven : Even m := by
      rcases hcases n with ⟨-, hle, honly⟩ | ⟨-, hle, honly⟩
      · have hsame : |x - m₀| * u = |x - m| * u :=
          le_antisymm (hle.trans heq.ge) (mul_le_mul_of_nonneg_right (hnearest m₀) hupos.le)
        obtain rfl := honly (heq.symm.trans hsame.symm)
        exact htie m₀ (by rintro rfl; exact hne rfl) (mul_right_cancel₀ hupos.ne' hsame).symm
      · have hsame : |x - (m₀ + 1 : ℕ)| * u = |x - m| * u :=
          le_antisymm (hle.trans heq.ge)
            (mul_le_mul_of_nonneg_right (hnearest (m₀ + 1)) hupos.le)
        obtain rfl := honly (heq.symm.trans hsame.symm)
        exact htie (m₀ + 1) (by rintro rfl; exact hne rfl)
          (mul_right_cancel₀ hupos.ne' hsame).symm
    have htwo : Even (2 ^ p) := (Nat.even_pow.mpr ⟨even_two, hp.ne'⟩)
    exact (htwo.mul_left E).add heven

namespace IsNearestCode

variable {q : ℚ} {c n : ℕ}

/-- A value has its own code. -/
theorem eq_of_value (h : IsNearestCode p emin (value p emin n) c) : c = n := by
  have hdist := h.nearest n
  rw [sub_self, abs_zero] at hdist
  have hzero := abs_eq_zero.mp (le_antisymm hdist (abs_nonneg _))
  exact (value_strictMono p emin).injective (sub_eq_zero.mp hzero).symm

/-- From the middle below it on, the successor of an odd code is not farther. -/
theorem le_iff (h : IsNearestCode p emin q c) (odd : Odd n) :
    n + 1 ≤ c ↔ (value p emin n + value p emin (n + 1)) / 2 ≤ q := by
  have hmono := value_strictMono p emin
  have hlt := hmono (Nat.lt_succ_self n)
  rw [Nat.succ_eq_add_one] at hlt
  constructor
  · intro hc
    by_contra hq
    rw [not_le] at hq
    have hval := hmono.monotone hc
    have hnear := h.nearest n
    rw [abs_sub_comm, abs_of_nonneg (by linarith)] at hnear
    have hfar : |q - value p emin n| < value p emin c - q := by
      rw [abs_lt]
      constructor <;> linarith
    linarith
  · intro hq
    by_contra hc
    have hle : c ≤ n := by omega
    have hval := hmono.monotone hle
    have hnear := h.nearest (n + 1)
    rw [abs_of_nonneg (by linarith : 0 ≤ q - value p emin c)] at hnear
    have hnear' : |q - value p emin (n + 1)| ≤ q - value p emin n := by
      rw [abs_le]
      constructor <;> linarith
    have hsame : c = n := hmono.injective (by linarith)
    subst hsame
    -- in the middle the even code is taken
    have heven := h.even (c + 1) (by omega) <| by
      rw [abs_of_nonneg (by linarith : 0 ≤ q - value p emin c)]
      linarith
    exact Nat.not_even_iff_odd.mpr odd heven

/-- The value with the sign of the number is nearest to it among the values and their negatives. -/
theorem signed (h : IsNearestCode p emin |q| c) (hq : q ≠ 0) {v v' : ℚ}
    (hv : v = if q < 0 then -value p emin c else value p emin c) (hv' : |v'| = value p emin n) :
    |q - v| ≤ |q - v'| ∧ (v' ≠ v → |q - v| = |q - v'| → Even c) := by
  -- the distance is the one of the magnitudes
  have hdist : |q - v| = abs (|q| - value p emin c) := by
    rw [hv]
    by_cases hnegative : q < 0
    · simp only [hnegative, if_true, abs_of_neg hnegative]
      rw [← abs_neg]
      congr 1
      ring
    · simp only [hnegative, if_false, abs_of_nonneg (not_lt.mp hnegative)]
  have hfar : abs (|q| - value p emin n) ≤ |q - v'| := by
    rw [← hv']
    exact abs_abs_sub_abs_le_abs_sub q v'
  rw [hdist]
  refine ⟨(h.nearest n).trans hfar, fun hne htie => ?_⟩
  by_cases hsame : n = c
  · -- a value and its negative are not as near
    exfalso
    have habs : |v'| = |v| := by
      rw [hv', hsame, hv]
      split
      · rw [abs_neg, abs_of_nonneg (value_nonneg c)]
      · rw [abs_of_nonneg (value_nonneg c)]
    obtain rfl := (abs_eq_abs.mp habs).resolve_left hne
    rcases abs_eq_abs.mp (hdist.trans htie) with heq | heq
    · exact hne (by linarith)
    · exact hq (by linarith)
  · exact h.even n hsame (le_antisymm (h.nearest n) (hfar.trans htie.ge))

end IsNearestCode

theorem code_value (hp : 0 < p) {n : ℕ} (hn : 0 < n) : code p emin (value p emin n) = n := by
  have hpos : 0 < value p emin n := by
    rw [← value_zero p emin]
    exact value_strictMono p emin hn
  obtain ⟨c, hc, h⟩ := isNearestCode emin hp hpos
  rw [hc, h.eq_of_value]

/-! ## Exact numbers -/

/-- A number which is a multiple of the unit of its scale has a code of its own. -/
theorem value_code {q : ℚ} (hq : 0 < q) {k : ℕ} (h : q = k * 2 ^ (max (Int.log 2 q) emin - p)) :
    ∃ c : ℕ, code p emin q = c ∧ value p emin c = q := by
  obtain ⟨-, hlt, hnormal⟩ := scale p emin hq
  obtain ⟨e, he⟩ : ∃ e, e = max (Int.log 2 q) emin := ⟨_, rfl⟩
  rw [← he] at h hlt hnormal
  obtain ⟨E, hE⟩ : ∃ E : ℕ, e - emin = E :=
    ⟨(e - emin).toNat, (Int.toNat_of_nonneg (by
      have := le_max_right (Int.log 2 q) emin
      omega)).symm⟩
  have hk : q / 2 ^ (e - p) = k := by
    rw [h]
    exact mul_div_cancel_right₀ _ (zpow_ne_zero _ two_ne_zero)
  rw [hk] at hlt hnormal
  have hround : roundHalfEven (k : ℚ) = k := by
    exact_mod_cast roundHalfEven_intCast k
  refine ⟨E * 2 ^ p + k, ?_, ?_⟩
  · simp only [code, ← he, hE, hk, hround]
    push_cast
    rfl
  · have hle : k ≤ 2 ^ (p + 1) := by exact_mod_cast hlt.le
    have hscale : 2 ^ p ≤ k ∨ E = 0 := hnormal.imp (by exact_mod_cast ·) fun heq => by omega
    rw [value_scaled hle hscale, h]
    congr 2
    omega

/-- A value of a format is one of a format with more bits and lower exponents. -/
theorem code_exact {p' : ℕ} {emin' : ℤ} (hp : p ≤ p') (hemin : emin' ≤ emin) {n : ℕ} (hn : 0 < n) :
    ∃ c : ℕ, code p' emin' (value p emin n) = c ∧ value p' emin' c = value p emin n := by
  have hpos : 0 < value p emin n := by
    rw [← value_zero p emin]
    exact value_strictMono p emin hn
  obtain ⟨e, m, rfl, hm, h⟩ := exists_scaled p n
  have hscaled : value p emin (e * 2 ^ p + m) = m * 2 ^ (emin - p + e) := value_scaled hm.le h
  -- the unit of the wider format is not larger
  have hlog : Int.log 2 (value p emin (e * 2 ^ p + m)) ≤ emin + e := by
    rw [← Int.lt_add_one_iff, ← Int.lt_zpow_iff_log_lt (by decide) hpos, hscaled]
    have hcast : (m : ℚ) < 2 ^ (p + 1) := by exact_mod_cast hm
    calc (m : ℚ) * 2 ^ (emin - p + e) < 2 ^ (p + 1) * 2 ^ (emin - p + e) :=
          mul_lt_mul_of_pos_right hcast (zpow_pos two_pos _)
      _ = 2 ^ (emin + e + 1) := by
          rw [← zpow_natCast, ← zpow_add₀ two_ne_zero]
          congr 1
          push_cast
          ring
  obtain ⟨d, hd⟩ : ∃ d : ℕ, emin - p + e =
      d + (max (Int.log 2 (value p emin (e * 2 ^ p + m))) emin' - p') :=
    ⟨(emin - p + e - (max (Int.log 2 (value p emin (e * 2 ^ p + m))) emin' - p')).toNat, by
      rcases max_choice (Int.log 2 (value p emin (e * 2 ^ p + m))) emin' with hmax | hmax <;>
        rw [hmax] <;> omega⟩
  refine value_code (k := m * 2 ^ d) hpos ?_
  rw [Nat.cast_mul, Nat.cast_pow, Nat.cast_ofNat, mul_assoc, ← zpow_natCast 2 d,
    ← zpow_add₀ two_ne_zero, ← hd, hscaled]

end BinaryFloat
