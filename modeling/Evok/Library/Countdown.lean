import Mathlib.Data.Nat.ModEq
import Mathlib.Logic.Function.Iterate

/-!
# Countdown counters

A counter of a period counts down and is loaded again after zero. It is zero at the multiples of its
period, counted from the last time it was cleared.

## Main definitions

* `Countdown.tick`: the next value of a counter.
* `Countdown.value`: the value after a number of ticks from zero.

## Main results

* `Countdown.iterate_tick`: the ticks from zero.
* `Countdown.value_eq_zero_iff`: a counter is zero in every period once.
-/

namespace Countdown

def tick (period counter : ℕ) : ℕ :=
  if counter = 0 then period - 1 else counter - 1

def value (period ticks : ℕ) : ℕ :=
  (period - ticks % period) % period

variable {period : ℕ}

@[simp] theorem value_zero (period : ℕ) : value period 0 = 0 := by
  simp [value]

theorem value_lt (positive : 0 < period) (ticks : ℕ) : value period ticks < period :=
  Nat.mod_lt _ positive

/-- A value is zero, or the rest of the period. -/
theorem value_cases (positive : 0 < period) (ticks : ℕ) :
    ticks % period = 0 ∧ value period ticks = 0 ∨
      0 < ticks % period ∧ value period ticks = period - ticks % period := by
  have hlt := Nat.mod_lt ticks positive
  unfold value
  rcases Nat.eq_zero_or_pos (ticks % period) with hzero | hpos
  · left
    simp [hzero]
  · right
    exact ⟨hpos, Nat.mod_eq_of_lt (by omega)⟩

theorem value_eq_zero_iff (positive : 0 < period) {ticks : ℕ} :
    value period ticks = 0 ↔ period ∣ ticks := by
  have hlt := Nat.mod_lt ticks positive
  rw [Nat.dvd_iff_mod_eq_zero]
  rcases value_cases positive ticks with ⟨hmod, hvalue⟩ | ⟨hmod, hvalue⟩ <;> omega

theorem tick_value (positive : 0 < period) (ticks : ℕ) :
    tick period (value period ticks) = value period (ticks + 1) := by
  have hlt := Nat.mod_lt ticks positive
  have hnext : (ticks + 1) % period = if ticks % period + 1 = period then 0
      else ticks % period + 1 := by
    rw [← Nat.mod_add_mod]
    split_ifs with hfull
    · rw [hfull, Nat.mod_self]
    · exact Nat.mod_eq_of_lt (by omega)
  unfold tick
  rcases value_cases positive ticks with ⟨hmod, hvalue⟩ | ⟨hmod, hvalue⟩ <;>
    rcases value_cases positive (ticks + 1) with ⟨hmod', hvalue'⟩ | ⟨hmod', hvalue'⟩ <;>
    split_ifs at hnext ⊢ <;> omega

theorem iterate_tick (positive : 0 < period) (ticks : ℕ) :
    (tick period)^[ticks] 0 = value period ticks := by
  induction ticks with
  | zero => simp
  | succ ticks ih => rw [Function.iterate_succ_apply', ih, tick_value positive]

end Countdown
