import Mathlib.Algebra.Order.Field.Power
import Mathlib.Algebra.Order.Field.Rat
import Mathlib.Tactic.Linarith
import Mathlib.Tactic.Ring
import Ecma3.Decimal.Binary64

/-!
The floating-point number nearest to a number. It is described by comparing it with all others, and
there is only one: of two equally near ones, which stand next to each other, one has an odd
significand.
-/
namespace Ecma3.Binary64

variable {q : ℚ} {m n : Nat} {e f : Int} {x y : Binary64}

/-- Significand and exponent of a number that is not negative: all 53 bits are used, unless the
exponent is the least one. -/
structure InFormat (m : Nat) (e : Int) : Prop where
  significand_lt : m < 2 ^ 53
  le_exponent : -1074 ≤ e
  exponent_le : e ≤ 971
  normal : 2 ^ 52 ≤ m ∨ e = -1074

/-- The number that significand and exponent stand for. -/
def magnitude (m : Nat) (e : Int) : ℚ := m * 2 ^ e

/-- Half a step above the greatest number; from here on the infinity is nearest. -/
def overflow : ℚ := (2 ^ 53 - 1 / 2) * 2 ^ 971

/-- The number nearest to one that is not negative. Of two equally near numbers it is the one with the
even significand. -/
inductive Nearest (q : ℚ) : Binary64 → Prop where
  | finite {m : Nat} {e : Int} (hformat : InFormat m e) (hlt : q < overflow)
    (hle : ∀ n f, InFormat n f → |q - magnitude m e| ≤ |q - magnitude n f|)
    (heven : ∀ n f, InFormat n f → |q - magnitude m e| = |q - magnitude n f| →
      (m, e) = (n, f) ∨ Even m) : Nearest q (.finite false m e)
  | infinite (hle : overflow ≤ q) : Nearest q (.infinite false)

theorem two_zpow_pos (e : Int) : (0 : ℚ) < 2 ^ e := zpow_pos two_pos e

/-- In terms of a smaller exponent the significand is a multiple. -/
theorem magnitude_eq_mul (m : Nat) (h : f ≤ e) :
    magnitude m e = ((m * 2 ^ (e - f).toNat : Nat) : ℚ) * 2 ^ f := by
  have hsplit : (2 : ℚ) ^ e = 2 ^ (e - f).toNat * 2 ^ f := by
    rw [← zpow_natCast, Int.toNat_of_nonneg (Int.sub_nonneg.2 h), ← zpow_add₀ two_ne_zero,
      Int.sub_add_cancel]
  rw [magnitude, hsplit, Nat.cast_mul, Nat.cast_pow, Nat.cast_ofNat, mul_assoc]

theorem magnitude_lt_iff : magnitude m e < magnitude n e ↔ m < n := by
  rw [magnitude, magnitude, mul_lt_mul_iff_left₀ (two_zpow_pos e), Nat.cast_lt]

theorem magnitude_le_iff : magnitude m e ≤ magnitude n e ↔ m ≤ n := by
  rw [magnitude, magnitude, mul_le_mul_iff_left₀ (two_zpow_pos e), Nat.cast_le]

theorem magnitude_add : magnitude (m + n) e = magnitude m e + magnitude n e := by
  rw [magnitude, Nat.cast_add, add_mul]
  rfl

theorem magnitude_double : magnitude (2 * m) e = magnitude m (e + 1) := by
  rw [magnitude, magnitude, zpow_add_one₀ two_ne_zero, Nat.cast_mul, Nat.cast_ofNat]
  ring

/-- With a greater exponent, a number is at least as great as all those that use no more bits. -/
theorem magnitude_le_of_lt (hm : m < 2 ^ 53) (hn : 2 ^ 52 ≤ n) (h : e < f) :
    magnitude (m + 1) e ≤ magnitude n f := by
  rw [magnitude_eq_mul n (Int.le_of_lt h), magnitude]
  refine mul_le_mul_of_nonneg_right ?_ (two_zpow_pos e).le
  obtain ⟨k, hk⟩ : ∃ k, (f - e).toNat = k + 1 := ⟨(f - e).toNat - 1, by omega⟩
  rw [Nat.cast_le, hk, Nat.pow_succ]
  have hone : n * 1 ≤ n * 2 ^ k := Nat.mul_le_mul_left n Nat.one_le_two_pow
  have hsplit : n * (2 ^ k * 2) = n * 2 ^ k * 2 := (Nat.mul_assoc _ _ _).symm
  omega

/-- Between a number and one more in its last place there is no other. -/
theorem magnitude_succ_le (hm : InFormat m e) (hn : InFormat n f)
    (h : magnitude m e < magnitude n f) : magnitude (m + 1) e ≤ magnitude n f := by
  rcases Int.lt_or_le e f with hlt | hle
  · have hnormal : 2 ^ 52 ≤ n := hn.normal.resolve_right (by have := hm.le_exponent; omega)
    exact magnitude_le_of_lt hm.significand_lt hnormal hlt
  · rcases Int.lt_or_eq_of_le hle with hlt | rfl
    · -- A number with a smaller exponent is not greater.
      have hnormal : 2 ^ 52 ≤ m := hm.normal.resolve_right (by have := hn.le_exponent; omega)
      have hle := magnitude_le_of_lt hn.significand_lt hnormal hlt
      have hstep : magnitude n f < magnitude (n + 1) f := magnitude_lt_iff.2 (Nat.lt_succ_self n)
      exact absurd h (not_lt_of_ge (hstep.le.trans hle))
    · have hlt := magnitude_lt_iff.1 h
      exact mul_le_mul_of_nonneg_right (Nat.cast_le.2 hlt) (two_zpow_pos f).le

/-- Each number has one significand and one exponent. -/
theorem magnitude_inj (hm : InFormat m e) (hn : InFormat n f)
    (h : magnitude m e = magnitude n f) : m = n ∧ e = f := by
  rcases Int.lt_trichotomy e f with hlt | rfl | hlt
  · have hnormal : 2 ^ 52 ≤ n := hn.normal.resolve_right (by have := hm.le_exponent; omega)
    have hstep : magnitude m e < magnitude (m + 1) e := magnitude_lt_iff.2 (Nat.lt_succ_self m)
    exact absurd h (hstep.trans_le (magnitude_le_of_lt hm.significand_lt hnormal hlt)).ne
  · refine ⟨Nat.le_antisymm ?_ ?_, rfl⟩
    · exact Nat.le_of_not_lt fun hlt => (magnitude_lt_iff.2 hlt).ne' h
    · exact Nat.le_of_not_lt fun hlt => (magnitude_lt_iff.2 hlt).ne h
  · have hnormal : 2 ^ 52 ≤ m := hm.normal.resolve_right (by have := hn.le_exponent; omega)
    have hstep : magnitude n f < magnitude (n + 1) f := magnitude_lt_iff.2 (Nat.lt_succ_self n)
    exact absurd h (hstep.trans_le (magnitude_le_of_lt hn.significand_lt hnormal hlt)).ne'

/-- What is nearest is unique: a second number that is just as near stands at the next place, and its
significand would not be even too. -/
theorem not_magnitude_lt (hm : InFormat m e) (hn : InFormat n f)
    (hle : ∀ k g, InFormat k g → |q - magnitude m e| ≤ |q - magnitude k g|)
    (heven : |q - magnitude m e| = |q - magnitude n f| → (m, e) = (n, f) ∨ Even m)
    (hle' : |q - magnitude n f| ≤ |q - magnitude m e|)
    (heven' : |q - magnitude n f| = |q - magnitude m e| → (n, f) = (m, e) ∨ Even n) :
    ¬magnitude m e < magnitude n f := by
  intro hlt
  have hne : (m, e) ≠ (n, f) := by
    rintro ⟨⟩
    exact lt_irrefl _ hlt
  have heq : |q - magnitude m e| = |q - magnitude n f| := le_antisymm (hle n f hn) hle'
  have hmeven : Even m := (heven heq).resolve_left hne
  have hneven : Even n := (heven' heq.symm).resolve_left hne.symm
  have hnext : InFormat (m + 1) e := by
    have hnormal := hm.normal
    refine ⟨?_, hm.le_exponent, hm.exponent_le, by omega⟩
    obtain ⟨k, rfl⟩ := hmeven
    have := hm.significand_lt
    omega
  rcases (magnitude_succ_le hm hn hlt).lt_or_eq with hbetween | hsame
  · -- What lies between the two is nearer than both.
    have hmiddle : q - magnitude m e = magnitude n f - q := by
      rcases abs_eq_abs.1 heq with h | h <;> linarith
    have hstep : magnitude m e < magnitude (m + 1) e := magnitude_lt_iff.2 (Nat.lt_succ_self m)
    have hnear : |q - magnitude (m + 1) e| < |q - magnitude m e| := by
      rw [abs_of_pos (by linarith : 0 < q - magnitude m e), abs_lt]
      constructor <;> linarith
    exact not_lt_of_ge (hle _ _ hnext) hnear
  · obtain ⟨rfl, -⟩ := magnitude_inj hnext hn hsame
    exact Nat.not_even_iff_odd.2 hmeven.add_one hneven

theorem Nearest.unique (hx : Nearest q x) (hy : Nearest q y) : x = y := by
  cases hx with
  | finite hm hlt hle heven =>
    cases hy with
    | finite hn _ hle' heven' =>
      have hsame := le_antisymm
        (le_of_not_gt (not_magnitude_lt hn hm hle' (heven' _ _ hm) (hle _ _ hn) (heven _ _ hn)))
        (le_of_not_gt (not_magnitude_lt hm hn hle (heven _ _ hn) (hle' _ _ hm) (heven' _ _ hm)))
      obtain ⟨rfl, rfl⟩ := magnitude_inj hm hn hsame
      rfl
    | infinite h => exact absurd hlt (not_lt_of_ge h)
  | infinite h =>
    cases hy with
    | finite _ hlt => exact absurd hlt (not_lt_of_ge h)
    | infinite => rfl

end Ecma3.Binary64
