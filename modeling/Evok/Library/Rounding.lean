import Mathlib.Algebra.Ring.Int.Parity
import Mathlib.Data.Rat.Floor
import Mathlib.Tactic.Linarith

/-!
# Rounding to the nearest integer, half to even

## Main definitions

* `roundHalfEven` : the nearest integer of a rational number, of two the even one.
* `roundDecimals` : the nearest multiple of a power of ten.
* `IsNearest` : the integers of which the result is the only one.

## Main results

* `roundHalfEven_intCast` : an integer is rounded to itself.
* `roundHalfEven_eq_iff` : the result is the nearest integer, of two the even one.
* `le_roundHalfEven_iff_of_even` : an even number is reached from one half below it.
-/

/-- The nearest integer, the even one of two. -/
def roundHalfEven (q : ℚ) : ℤ :=
  let rest := q - ⌊q⌋
  if rest < 1 / 2 then ⌊q⌋
  else if 1 / 2 < rest then ⌊q⌋ + 1
  else if ⌊q⌋ % 2 = 0 then ⌊q⌋ else ⌊q⌋ + 1

/-- The nearest multiple of `10 ^ (-decimals)`. -/
def roundDecimals (q : ℚ) (decimals : ℤ) : ℚ :=
  roundHalfEven (q * 10 ^ decimals) / 10 ^ decimals

@[simp] theorem roundHalfEven_intCast (n : ℤ) : roundHalfEven n = n := by
  simp [roundHalfEven]

/-- `n` is the nearest integer of `q`, of two the even one. -/
def IsNearest (q : ℚ) (n : ℤ) : Prop :=
  |q - n| < 1 / 2 ∨ |q - n| = 1 / 2 ∧ Even n

theorem IsNearest.abs_le {q : ℚ} {n : ℤ} (h : IsNearest q n) : |q - n| ≤ 1 / 2 := by
  rcases h with near | ⟨tie, -⟩
  · exact near.le
  · exact tie.le

/-- There is only one nearest integer. -/
theorem IsNearest.unique {q : ℚ} {m n : ℤ} (hm : IsNearest q m) (hn : IsNearest q n) : m = n := by
  have hdist : |(m : ℚ) - n| ≤ |q - m| + |q - n| := by
    have := abs_sub_le (m : ℚ) q n
    rwa [abs_sub_comm (m : ℚ) q] at this
  by_contra hne
  have hone : (1 : ℚ) ≤ |(m : ℚ) - n| := by
    have := Int.one_le_abs (sub_ne_zero.mpr hne)
    exact_mod_cast this
  have hle := hm.abs_le
  have hle' := hn.abs_le
  -- both are at the distance 1 / 2, so both are even, neighbours are not
  obtain ⟨a, ha⟩ : Even m := by
    rcases hm with near | ⟨-, even⟩
    · linarith
    · exact even
  obtain ⟨b, hb⟩ : Even n := by
    rcases hn with near | ⟨-, even⟩
    · linarith
    · exact even
  have h : |(m : ℚ) - n| = 1 := by linarith
  have h : |m - n| = 1 := by exact_mod_cast h
  rcases (abs_eq zero_le_one).mp h with h | h <;> omega

/-- The result of the rounding is the nearest integer. -/
theorem isNearest_roundHalfEven (q : ℚ) : IsNearest q (roundHalfEven q) := by
  have hfloor := Int.floor_le q
  have hlt := Int.lt_floor_add_one q
  unfold roundHalfEven IsNearest
  dsimp only
  split_ifs with hdown hup heven
  · left
    rw [abs_of_nonneg (by linarith)]
    exact hdown
  · left
    push_cast
    rw [abs_sub_lt_iff]
    constructor <;> linarith
  · right
    have : q - ⌊q⌋ = 1 / 2 := by linarith
    rw [this]
    exact ⟨by norm_num, Int.even_iff.mpr heven⟩
  · right
    have : q - ⌊q⌋ = 1 / 2 := by linarith
    have h : q - ((⌊q⌋ + 1 : ℤ) : ℚ) = -(1 / 2) := by
      push_cast
      linarith
    rw [h]
    exact ⟨by norm_num, Int.even_iff.mpr (by omega)⟩

theorem roundHalfEven_eq_iff {q : ℚ} {n : ℤ} : roundHalfEven q = n ↔ IsNearest q n :=
  ⟨fun h => h ▸ isNearest_roundHalfEven q, fun h => (isNearest_roundHalfEven q).unique h⟩

theorem abs_sub_roundHalfEven_le (q : ℚ) : |q - roundHalfEven q| ≤ 1 / 2 :=
  (isNearest_roundHalfEven q).abs_le

theorem le_roundHalfEven {q : ℚ} {n : ℤ} (h : (n : ℚ) ≤ q) : n ≤ roundHalfEven q := by
  have hle := (abs_sub_le_iff.mp (abs_sub_roundHalfEven_le q)).1
  by_contra hlt
  have : (roundHalfEven q : ℚ) + 1 ≤ n := by exact_mod_cast not_le.mp hlt
  linarith

theorem roundHalfEven_le {q : ℚ} {n : ℤ} (h : q ≤ n) : roundHalfEven q ≤ n := by
  have hle := (abs_sub_le_iff.mp (abs_sub_roundHalfEven_le q)).2
  by_contra hlt
  have : (n : ℚ) + 1 ≤ roundHalfEven q := by exact_mod_cast not_le.mp hlt
  linarith

/-- An even number is reached from one half below it. -/
theorem le_roundHalfEven_iff_of_even {q : ℚ} {n : ℤ} (even : Even n) :
    n ≤ roundHalfEven q ↔ n - 1 / 2 ≤ q := by
  constructor
  · intro h
    have hle := (abs_sub_le_iff.mp (abs_sub_roundHalfEven_le q)).2
    have : (n : ℚ) ≤ roundHalfEven q := by exact_mod_cast h
    linarith
  · intro h
    rcases le_or_gt (n : ℚ) q with hq | hq
    · exact le_roundHalfEven hq
    · refine (roundHalfEven_eq_iff.mpr ?_).ge
      have habs : |q - n| = n - q := by
        rw [abs_sub_comm, abs_of_pos (by linarith)]
      rcases eq_or_lt_of_le h with tie | near
      · exact .inr ⟨by rw [habs]; linarith, even⟩
      · exact .inl (by rw [habs]; linarith)

/-- No integer is nearer than the rounded one. -/
theorem abs_sub_roundHalfEven_le_abs (q : ℚ) (n : ℤ) : |q - roundHalfEven q| ≤ |q - n| := by
  rcases eq_or_ne n (roundHalfEven q) with rfl | hne
  · rfl
  · have hone : (1 : ℚ) ≤ |(n : ℚ) - roundHalfEven q| := by
      have := Int.one_le_abs (sub_ne_zero.mpr hne)
      exact_mod_cast this
    have hdist := abs_sub_le (n : ℚ) q (roundHalfEven q)
    rw [abs_sub_comm (n : ℚ) q] at hdist
    have := abs_sub_roundHalfEven_le q
    linarith

/-- Two nearest integers are a tie. -/
theorem even_of_tie {q : ℚ} {n : ℤ} (hne : n ≠ roundHalfEven q)
    (h : |q - roundHalfEven q| = |q - n|) : Even (roundHalfEven q) := by
  rcases isNearest_roundHalfEven q with near | ⟨-, even⟩
  · have hone : (1 : ℚ) ≤ |(n : ℚ) - roundHalfEven q| := by
      have := Int.one_le_abs (sub_ne_zero.mpr hne)
      exact_mod_cast this
    have hdist := abs_sub_le (n : ℚ) q (roundHalfEven q)
    rw [abs_sub_comm (n : ℚ) q, ← h] at hdist
    linarith
  · exact even
