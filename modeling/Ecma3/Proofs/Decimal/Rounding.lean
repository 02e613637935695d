import Mathlib.Algebra.Order.Floor.Ring
import Mathlib.Data.Nat.Digits.Lemmas
import Mathlib.Tactic.FieldSimp
import Mathlib.Tactic.NormNum
import Mathlib.Tactic.Positivity
import Mathlib.Tactic.Ring
import Ecma3.Proofs.Decimal.Literal
import Ecma3.Proofs.Decimal.Nearest

/-!
Rounding gives the nearest number. A ratio is first put between two powers of two, which fixes the
exponent; the significand is then the nearest whole number of such steps.
-/
namespace Ecma3

namespace Binary64

variable {q : ℚ} {m n num den base : Nat} {e f : Int}

theorem scale_pos (hbase : 0 < base) (e : Int) : 0 < (scale base e).1 ∧ 0 < (scale base e).2 :=
  ⟨Nat.pow_pos hbase, Nat.pow_pos hbase⟩

theorem scale_ratio (hbase : 0 < base) (e : Int) :
    ((scale base e).1 : ℚ) / (scale base e).2 = (base : ℚ) ^ e := by
  have hne : (base : ℚ) ≠ 0 := by exact_mod_cast hbase.ne'
  have hexponent : e = (e.toNat : Int) - ((-e).toNat : Int) := by omega
  calc ((scale base e).1 : ℚ) / (scale base e).2
      = (base : ℚ) ^ e.toNat / (base : ℚ) ^ (-e).toNat := by simp [scale]
    _ = (base : ℚ) ^ ((e.toNat : Int) - ((-e).toNat : Int)) := by
        rw [zpow_sub₀ hne, zpow_natCast, zpow_natCast]
    _ = (base : ℚ) ^ e := by rw [← hexponent]

/-- A ratio lies behind its whole part by what is left over. -/
theorem ratio_eq (hden : 0 < den) :
    (num / den : ℚ) = (num / den : Nat) + ((num % den : Nat) : ℚ) / den := by
  have hne : (den : ℚ) ≠ 0 := by exact_mod_cast hden.ne'
  have hsplit : ((den * (num / den) + num % den : Nat) : ℚ) = num :=
    congrArg Nat.cast (Nat.div_add_mod num den)
  rw [div_eq_iff hne, add_mul, div_mul_cancel₀ _ hne, mul_comm, ← hsplit]
  push_cast
  ring

/-- The whole number is no further away than half, and is even if it is as far as that. -/
theorem roundRatio_near (hden : 0 < den) :
    |(num / den : ℚ) - roundRatio num den| ≤ 1 / 2 ∧
      (|(num / den : ℚ) - roundRatio num den| = 1 / 2 → Even (roundRatio num den)) := by
  have hpos : (0 : ℚ) < den := by exact_mod_cast hden
  rw [ratio_eq hden, roundRatio]
  generalize num / den = quotient
  generalize hrest : num % den = rest
  have hnonneg : (0 : ℚ) ≤ rest / den := by positivity
  have hlt : (rest / den : ℚ) < 1 := by
    rw [div_lt_one hpos]
    exact_mod_cast hrest ▸ Nat.mod_lt num hden
  split
  case isTrue hless =>
    have hhalf : (rest / den : ℚ) < 1 / 2 := by
      rw [div_lt_div_iff₀ hpos two_pos]
      exact_mod_cast (by omega : rest * 2 < 1 * den)
    rw [add_sub_cancel_left, abs_of_nonneg hnonneg]
    exact ⟨hhalf.le, fun h => absurd h hhalf.ne⟩
  case isFalse hless =>
    split
    case isTrue hmore =>
      have hhalf : (1 / 2 : ℚ) < rest / den := by
        rw [div_lt_div_iff₀ two_pos hpos]
        exact_mod_cast (by omega : 1 * den < rest * 2)
      have hdistance : |(quotient + rest / den - (quotient + 1 : Nat) : ℚ)| = 1 - rest / den := by
        push_cast
        rw [add_sub_add_left_eq_sub, abs_sub_comm, abs_of_pos (by linarith)]
      rw [hdistance]
      exact ⟨by linarith, fun h => absurd h (by linarith)⟩
    case isFalse hmore =>
      have hhalf : (rest / den : ℚ) = 1 / 2 := by
        rw [div_eq_div_iff hpos.ne' two_ne_zero]
        exact_mod_cast (by omega : rest * 2 = 1 * den)
      have heven : Even (quotient + quotient % 2) := by
        rw [Nat.even_add, Nat.even_iff, Nat.even_iff]
        omega
      refine ⟨?_, fun _ => heven⟩
      rw [hhalf]
      rcases Nat.mod_two_eq_zero_or_one quotient with h | h <;> rw [h] <;> push_cast
      · rw [add_zero, add_sub_cancel_left, abs_of_pos one_half_pos]
      · rw [add_sub_add_left_eq_sub, abs_of_neg] <;> norm_num

/-- The power of two is the greatest one that is no greater than the ratio. -/
theorem binaryMagnitude_spec (hnum : 0 < num) (hden : 0 < den) :
    (2 : ℚ) ^ binaryMagnitude num den ≤ num / den ∧
      (num / den : ℚ) < 2 ^ (binaryMagnitude num den + 1) := by
  have hpos : (0 : ℚ) < den := by exact_mod_cast hden
  have hbounds : ∀ {n : Nat}, 0 < n →
      (2 : ℚ) ^ (n.log2 : Int) ≤ n ∧ (n : ℚ) < 2 ^ (n.log2 + 1 : Int) := by
    intro n hn
    constructor
    · exact_mod_cast Nat.log2_self_le hn.ne'
    · exact_mod_cast Nat.lt_log2_self
  obtain ⟨hnumlow, hnumhigh⟩ := hbounds hnum
  obtain ⟨hdenlow, hdenhigh⟩ := hbounds hden
  have hlow : (2 : ℚ) ^ ((num.log2 : Int) - den.log2 - 1) ≤ num / den := by
    rw [Int.sub_sub, zpow_sub₀ two_ne_zero]
    exact div_le_div₀ (Nat.cast_nonneg num) hnumlow hpos hdenhigh.le
  have hhigh : (num / den : ℚ) < 2 ^ ((num.log2 : Int) - den.log2 + 1) := by
    rw [sub_add_eq_add_sub, zpow_sub₀ two_ne_zero]
    exact div_lt_div₀ hnumhigh hdenlow (two_zpow_pos _).le (two_zpow_pos _)
  rw [binaryMagnitude]
  dsimp only
  obtain ⟨hup, hdown⟩ := scale_pos two_pos ((num.log2 : Int) - den.log2)
  split
  case isTrue hle =>
    refine ⟨?_, hhigh⟩
    rw [← Nat.cast_ofNat, ← scale_ratio two_pos, div_le_div_iff₀ (by exact_mod_cast hdown) hpos]
    rw [Nat.mul_comm] at hle
    exact_mod_cast hle
  case isFalse hlt =>
    refine ⟨hlow, ?_⟩
    rw [Int.sub_add_cancel, ← Nat.cast_ofNat, ← scale_ratio two_pos,
      div_lt_div_iff₀ hpos (by exact_mod_cast hdown)]
    rw [Nat.not_le, Nat.mul_comm den] at hlt
    exact_mod_cast hlt

/-- The significand is the nearest whole number of steps of the exponent, and the exponent is such
that the number needs no more than 53 bits of them, and all 53 unless the exponent is the least. -/
structure Rounds (q : ℚ) (m : Nat) (e : Int) : Prop where
  le_exponent : -1074 ≤ e
  lt : q < magnitude (2 ^ 53) e
  normal : magnitude (2 ^ 52) e ≤ q ∨ e = -1074
  near : |q - magnitude m e| ≤ magnitude 1 e / 2
  even : |q - magnitude m e| = magnitude 1 e / 2 → Even m

namespace Rounds

theorem step_pos (e : Int) : 0 < magnitude 1 e := by
  rw [magnitude, Nat.cast_one, one_mul]
  exact two_zpow_pos e

/-- Rounding goes up to the next power of two at most. -/
theorem significand_le (h : Rounds q m e) : m ≤ 2 ^ 53 := by
  by_contra hlt
  have hle : magnitude (2 ^ 53) e + magnitude 1 e ≤ magnitude m e := by
    rw [← magnitude_add, magnitude_le_iff]
    omega
  have hnear := abs_le.1 h.near
  have := step_pos e
  have := h.lt
  linarith [hnear.1]

theorem le_significand (h : Rounds q m e) : 2 ^ 52 ≤ m ∨ e = -1074 := by
  refine h.normal.imp_left fun hnormal => ?_
  by_contra hlt
  have hle : magnitude m e + magnitude 1 e ≤ magnitude (2 ^ 52) e := by
    rw [← magnitude_add, magnitude_le_iff]
    omega
  have hnear := abs_le.1 h.near
  have := step_pos e
  linarith [hnear.2]

/-- Other numbers of steps are at least as far away, and further if the significand is odd. -/
theorem le_of_multiple (h : Rounds q m e) (hne : m ≠ n) :
    |q - magnitude m e| ≤ |q - magnitude n e| ∧
      (|q - magnitude m e| = |q - magnitude n e| → Even m) := by
  have hapart : magnitude 1 e ≤ |magnitude m e - magnitude n e| := by
    rcases Nat.lt_or_gt_of_ne hne with hlt | hlt
    · have hle : magnitude m e + magnitude 1 e ≤ magnitude n e := by
        rwa [← magnitude_add, magnitude_le_iff]
      rw [abs_sub_comm]
      exact (by linarith : magnitude 1 e ≤ magnitude n e - magnitude m e).trans (le_abs_self _)
    · have hle : magnitude n e + magnitude 1 e ≤ magnitude m e := by
        rwa [← magnitude_add, magnitude_le_iff]
      exact (by linarith : magnitude 1 e ≤ magnitude m e - magnitude n e).trans (le_abs_self _)
  have htriangle : |magnitude m e - magnitude n e| ≤ |q - magnitude m e| + |q - magnitude n e| := by
    rw [abs_sub_comm q (magnitude m e)]
    exact abs_sub_le _ _ _
  have hnear := h.near
  exact ⟨by linarith, fun heq => h.even (by linarith)⟩

theorem le_of_inFormat (h : Rounds q m e) (hn : InFormat n f) :
    |q - magnitude m e| ≤ |q - magnitude n f| ∧
      (|q - magnitude m e| = |q - magnitude n f| → magnitude m e = magnitude n f ∨ Even m) := by
  rcases Int.lt_or_le f e with hlt | hle
  · -- Smaller steps only lead to numbers below the power of two that the steps begin at.
    have hnormal := h.normal.resolve_right (by have := hn.le_exponent; omega)
    have hbelow : magnitude n f < magnitude (2 ^ 52) e :=
      (magnitude_lt_iff.2 (Nat.lt_succ_self n)).trans_le
        (magnitude_le_of_lt hn.significand_lt (Nat.le_refl _) hlt)
    have hfirst : |q - magnitude m e| ≤ q - magnitude (2 ^ 52) e := by
      by_cases hne : m = 2 ^ 52
      · rw [hne, abs_of_nonneg (sub_nonneg.2 hnormal)]
      · rw [← abs_of_nonneg (sub_nonneg.2 hnormal)]
        exact (h.le_of_multiple hne).1
    have hfurther : |q - magnitude m e| < |q - magnitude n f| := by
      rw [abs_of_pos (by linarith : 0 < q - magnitude n f)]
      linarith
    exact ⟨hfurther.le, fun heq => absurd heq hfurther.ne⟩
  · have hmultiple : magnitude n f = magnitude (n * 2 ^ (f - e).toNat) e := magnitude_eq_mul n hle
    rw [hmultiple]
    by_cases hne : m = n * 2 ^ (f - e).toNat
    · rw [← hne]
      exact ⟨le_refl _, fun _ => Or.inl rfl⟩
    · exact ⟨(h.le_of_multiple hne).1, fun heq => Or.inr ((h.le_of_multiple hne).2 heq)⟩

theorem overflow_eq : overflow = magnitude (2 ^ 53) 971 - magnitude 1 971 / 2 := by
  rw [overflow, magnitude, magnitude, Nat.cast_pow, Nat.cast_ofNat, Nat.cast_one, one_mul, sub_mul,
    one_div, inv_mul_eq_div, zpow_ofNat]

theorem magnitude_le_of_exponent_le (n : Nat) (h : f ≤ e) : magnitude n f ≤ magnitude n e := by
  rw [magnitude_eq_mul n h]
  exact magnitude_le_iff.2 (Nat.le_mul_of_pos_right n (Nat.two_pow_pos _))

/-- The greatest power of two that 53 bits do not reach is that of the next exponent. -/
theorem magnitude_top : magnitude (2 ^ 53) e = magnitude (2 ^ 52) (e + 1) := by
  rw [← magnitude_double, ← Nat.pow_succ']

/-- Where the exponent would be too great, or become too great, the infinity is nearest. -/
theorem overflow_le (h : Rounds q m e) (hover : 971 < e ∨ e = 971 ∧ m = 2 ^ 53) : overflow ≤ q := by
  have hstep := step_pos 971
  rw [overflow_eq]
  rcases hover with hlt | ⟨rfl, rfl⟩
  · have hnormal := h.normal.resolve_right (by omega)
    have hle : magnitude (2 ^ 53) 971 ≤ q := by
      rw [magnitude_top]
      exact (magnitude_le_of_exponent_le (2 ^ 52) hlt).trans hnormal
    exact (sub_le_self _ (half_pos hstep).le).trans hle
  · exact sub_le_comm.1 ((abs_le.1 ((abs_sub_comm _ _).trans_le h.near)).2)

theorem lt_overflow (h : Rounds q m e) (hle : e ≤ 971) (hne : e = 971 → m ≠ 2 ^ 53) :
    q < overflow := by
  rw [overflow_eq, lt_sub_iff_add_lt]
  rcases Int.lt_or_eq_of_le hle with hlt | rfl
  · have hq : q < magnitude (2 ^ 52) 971 :=
      h.lt.trans_le (magnitude_top.trans_le (magnitude_le_of_exponent_le (2 ^ 52) (by omega)))
    have hroom : magnitude (2 ^ 52) 971 + magnitude 1 971 ≤ magnitude (2 ^ 53) 971 := by
      rw [← magnitude_add, magnitude_le_iff]
      norm_num
    exact (add_lt_add_of_lt_of_le hq (half_le_self (step_pos 971).le)).trans_le hroom
  · -- Half a step above the greatest number, rounding would go to the even number above it.
    have hlast : m + 1 ≤ 2 ^ 53 := Nat.lt_of_le_of_ne h.significand_le (hne rfl)
    have hroom : magnitude m 971 + magnitude 1 971 ≤ magnitude (2 ^ 53) 971 := by
      rwa [← magnitude_add, magnitude_le_iff]
    by_contra hhalf
    rw [not_lt] at hhalf
    have hbelow := hroom.trans hhalf
    have hnear := (abs_le.1 h.near).2
    have hsame : |q - magnitude m 971| = magnitude 1 971 / 2 :=
      le_antisymm h.near (le_trans (by linarith) (le_abs_self _))
    have htop : 2 ^ 53 ≤ m + 1 := by
      rw [← magnitude_le_iff, magnitude_add]
      exact hhalf.trans (by linarith)
    have heven := Nat.even_iff.1 (h.even hsame)
    omega

/-- The number of steps, as a number of the format, is nearest. -/
theorem nearest_finite (h : Rounds q m e) (hn : InFormat n f) (hlt : q < overflow)
    (hsame : magnitude n f = magnitude m e) (heven : Even m → Even n) :
    Nearest q (.finite false n f) := by
  refine .finite hn hlt (fun k g hk => ?_) fun k g hk heq => ?_
  · rw [hsame]
    exact (h.le_of_inFormat hk).1
  · rw [hsame] at heq
    rcases (h.le_of_inFormat hk).2 heq with hother | hm
    · obtain ⟨rfl, rfl⟩ := magnitude_inj hn hk (hsame.trans hother)
      exact Or.inl rfl
    · exact Or.inr (heven hm)

/-- Written with 53 bits, or as an infinity if there is no number so great, the steps are nearest. -/
theorem nearest (h : Rounds q m e) : Nearest q
    (let (significand, exponent) := if m = 2 * hiddenBit then (hiddenBit, e + 1) else (m, e)
    if greatestExponent < exponent then .infinite false
    else .finite false significand exponent) := by
  have hbit : hiddenBit = 2 ^ 52 := rfl
  have hgreatest : greatestExponent = 971 := rfl
  have hle := h.le_exponent
  by_cases hm : m = 2 * hiddenBit
  · rw [if_pos hm]
    dsimp only
    have htop : m = 2 ^ 53 := by omega
    by_cases hover : greatestExponent < e + 1
    · rw [if_pos hover]
      exact .infinite (h.overflow_le (by omega))
    · rw [if_neg hover]
      have hformat : InFormat hiddenBit (e + 1) := ⟨by omega, by omega, by omega, by omega⟩
      refine h.nearest_finite hformat (h.lt_overflow (by omega) (by omega)) ?_ fun _ => ?_
      · rw [htop, magnitude_top, hbit]
      · exact hbit ▸ (Nat.even_pow.2 ⟨even_two, by omega⟩)
  · rw [if_neg hm]
    dsimp only
    by_cases hover : greatestExponent < e
    · rw [if_pos hover]
      exact .infinite (h.overflow_le (by omega))
    · rw [if_neg hover]
      have hbits := h.significand_le
      have hformat : InFormat m e := ⟨by omega, hle, by omega, h.le_significand⟩
      exact h.nearest_finite hformat (h.lt_overflow (by omega) (by omega)) rfl id

end Rounds

/-- A ratio has the exponent at which it needs 53 bits, or the least one. -/
theorem rounds_ratio (hnum : 0 < num) (hden : 0 < den)
    (he : e = max leastExponent (binaryMagnitude num den - 52)) :
    Rounds (num / den) (roundRatio (num * (scale 2 e).2) (den * (scale 2 e).1)) e := by
  obtain ⟨hlow, hhigh⟩ := binaryMagnitude_spec hnum hden
  obtain ⟨hup, hdown⟩ := scale_pos two_pos e
  have hsteps : (num / den : ℚ) =
      ((num * (scale 2 e).2 : Nat) / (den * (scale 2 e).1 : Nat)) * 2 ^ e := by
    rw [← Nat.cast_ofNat (R := ℚ), ← scale_ratio two_pos e]
    push_cast
    field_simp
  obtain ⟨hnear, heven⟩ :=
    @roundRatio_near (num * (scale 2 e).2) (den * (scale 2 e).1) (Nat.mul_pos hden hup)
  have hdistance : ∀ n : Nat, |(num / den : ℚ) - magnitude n e| =
      |((num * (scale 2 e).2 : Nat) / (den * (scale 2 e).1 : Nat) : ℚ) - n| * 2 ^ e := fun n => by
    rw [hsteps, magnitude, ← sub_mul, abs_mul, abs_of_pos (two_zpow_pos e)]
  have hhalf : magnitude 1 e / 2 = 1 / 2 * 2 ^ e := by
    rw [magnitude, Nat.cast_one, one_mul, one_div, inv_mul_eq_div]
  have hleast : leastExponent = -1074 := rfl
  constructor
  case le_exponent => omega
  case lt =>
    have hpower : magnitude (2 ^ 53) e = 2 ^ (e + 53) := by
      rw [magnitude, Nat.cast_pow, Nat.cast_ofNat, mul_comm, zpow_add₀ two_ne_zero]
      rfl
    rw [hpower]
    exact hhigh.trans_le (zpow_le_zpow_right₀ one_le_two (by omega))
  case normal =>
    have hpower : magnitude (2 ^ 52) e = 2 ^ (e + 52) := by
      rw [magnitude, Nat.cast_pow, Nat.cast_ofNat, mul_comm, zpow_add₀ two_ne_zero]
      rfl
    by_cases hleastexponent : e = -1074
    · exact Or.inr hleastexponent
    · rw [hpower, show e + 52 = binaryMagnitude num den by omega]
      exact Or.inl hlow
  case near =>
    rw [hdistance, hhalf]
    exact mul_le_mul_of_nonneg_right hnear (two_zpow_pos e).le
  case even =>
    intro h
    rw [hdistance, hhalf] at h
    exact heven (mul_right_cancel₀ (two_zpow_pos e).ne' h)

/-- The number that a ratio is rounded to is the nearest one. -/
theorem nearest_ofRatio (hnum : 0 < num) (hden : 0 < den) :
    Nearest (num / den) (ofRatio false num den) := by
  exact (rounds_ratio hnum hden rfl).nearest

/-- Numbers below half of the least one are rounded to zero. -/
theorem nearest_zero (hq : 0 ≤ q) (hlt : q < magnitude 1 (-1074) / 2) : Nearest q (zero false) := by
  have hzero : magnitude 0 (-1074) = 0 := by rw [magnitude, Nat.cast_zero, zero_mul]
  have hrounds : Rounds q 0 (-1074) := by
    refine ⟨le_refl _, ?_, Or.inr rfl, ?_, fun _ => Even.zero⟩
    · have hhalf := half_le_self (Rounds.step_pos (-1074)).le
      exact hlt.trans_le (hhalf.trans (magnitude_le_iff.2 (by norm_num)))
    · rw [hzero, sub_zero, abs_of_nonneg hq]
      exact hlt.le
  have hformat : InFormat 0 (-1074) := ⟨by norm_num, le_refl _, by norm_num, Or.inr rfl⟩
  exact hrounds.nearest_finite hformat (hrounds.lt_overflow (by norm_num) (by simp)) rfl id

/-- A number lies between the powers of the base that the count of its digits tells. -/
theorem toDigits_bounds {n : Nat} (hn : 0 < n) :
    (10 : ℚ) ^ ((Nat.toDigits 10 n).length - 1 : Int) ≤ n ∧
      (n : ℚ) < 10 ^ ((Nat.toDigits 10 n).length : Int) := by
  obtain ⟨k, hk⟩ : ∃ k, (Nat.toDigits 10 n).length = k + 1 :=
    Nat.exists_eq_succ_of_ne_zero Nat.length_toDigits_pos.ne'
  have hhigh : n < 10 ^ (k + 1) :=
    (Nat.length_toDigits_le_iff (by norm_num) k.succ_pos).1 hk.le
  have hlow : 10 ^ k ≤ n := by
    rcases Nat.eq_zero_or_pos k with rfl | hpos
    · exact hn
    · exact Nat.le_of_not_lt fun hlt => by
        have := (Nat.length_toDigits_le_iff (by norm_num) hpos).2 hlt
        omega
  rw [hk, Nat.cast_succ, add_sub_cancel_right]
  constructor
  · exact_mod_cast hlow
  · exact_mod_cast hhigh

/-- A number with so many digits before the point is greater than all numbers of the format. -/
theorem overflow_le_of_ten_pow (hlt : 310 < e) (hle : (10 : ℚ) ^ (e - 1) ≤ q) : overflow ≤ q := by
  have hpowers : 2 ^ 1024 ≤ 10 ^ 310 := by decide +kernel
  calc overflow
      ≤ magnitude (2 ^ 53) 971 :=
        Rounds.overflow_eq.trans_le (sub_le_self _ (half_pos (Rounds.step_pos _)).le)
    _ = 2 ^ 1024 := by
        rw [magnitude, Nat.cast_pow, Nat.cast_ofNat, zpow_ofNat, ← pow_add]
    _ ≤ 10 ^ 310 := by exact_mod_cast hpowers
    _ ≤ 10 ^ (e - 1) := by
        rw [← zpow_natCast]
        exact zpow_le_zpow_right₀ (by norm_num) (by omega)
    _ ≤ q := hle

/-- A number with so many zeros behind the point is less than half of the least one. -/
theorem lt_of_ten_pow (hlt : e < -330) (hq : q < 10 ^ e) : q < magnitude 1 (-1074) / 2 := by
  have hpowers : 2 ^ 1075 ≤ 10 ^ 331 := by decide +kernel
  calc q
      < 10 ^ e := hq
    _ ≤ 10 ^ (-331 : Int) := zpow_le_zpow_right₀ (by norm_num) (by omega)
    _ = 1 / 10 ^ 331 := by rw [zpow_neg, zpow_ofNat, one_div]
    _ ≤ 1 / 2 ^ 1075 :=
        one_div_le_one_div_of_le (pow_pos two_pos _) (by exact_mod_cast hpowers)
    _ = magnitude 1 (-1074) / 2 := by
        rw [magnitude, Nat.cast_one, one_mul, zpow_neg, zpow_ofNat, pow_succ, one_div, mul_inv]
        rfl

/-- The number that digits with a power of ten are read as is the nearest one. -/
theorem nearest_ofDecimal (digits : Nat) (e : Int) :
    Nearest (digits * 10 ^ e) (ofDecimal false digits e) := by
  have hten : ∀ k : Int, (0 : ℚ) < 10 ^ k := zpow_pos (by norm_num)
  rw [ofDecimal]
  by_cases hzero : digits = 0
  · rw [if_pos hzero, hzero, Nat.cast_zero, zero_mul]
    exact nearest_zero le_rfl (half_pos (Rounds.step_pos _))
  · rw [if_neg hzero]
    have hdigits := Nat.pos_of_ne_zero hzero
    obtain ⟨hlow, hhigh⟩ := toDigits_bounds hdigits
    have hten_ne : (10 : ℚ) ≠ 0 := by norm_num
    have hlow : (10 : ℚ) ^ ((Nat.toDigits 10 digits).length + e - 1) ≤ digits * 10 ^ e := by
      rw [add_sub_right_comm, zpow_add₀ hten_ne]
      exact mul_le_mul_of_nonneg_right hlow (hten e).le
    have hhigh : (digits * 10 ^ e : ℚ) < 10 ^ ((Nat.toDigits 10 digits).length + e) := by
      rw [zpow_add₀ hten_ne]
      exact mul_lt_mul_of_pos_right hhigh (hten e)
    dsimp only
    split
    case isTrue hgreat => exact .infinite (overflow_le_of_ten_pow hgreat hlow)
    case isFalse hgreat =>
      split
      case isTrue hsmall =>
        have hnonneg : (0 : ℚ) ≤ digits * 10 ^ e := mul_nonneg (Nat.cast_nonneg digits) (hten e).le
        exact nearest_zero hnonneg (lt_of_ten_pow hsmall hhigh)
      case isFalse hsmall =>
        obtain ⟨hup, hdown⟩ := scale_pos (show 0 < 10 by norm_num) e
        have hratio : (digits * 10 ^ e : ℚ) = (digits * (scale 10 e).1 : Nat) / (scale 10 e).2 := by
          rw [Nat.cast_mul, mul_div_assoc, scale_ratio (by norm_num), Nat.cast_ofNat]
        rw [hratio]
        exact nearest_ofRatio (Nat.mul_pos hdigits hup) hdown

end Binary64

namespace Decimal.Literal

open Text (isDigit numeral)

variable {cs : List Char} {l : Literal}

def exponentValue : Option (Bool × List Char) → Int
  | none => 0
  | some (negative, digits) => if negative then -(numeral 10 digits : Int) else numeral 10 digits

/-- The number that a literal is written for: digits after the point are tenths, hundredths and so
on, and the exponent is that of a power of ten. -/
def toRat (l : Literal) : ℚ :=
  let fraction := l.fraction.getD []
  (numeral 10 l.whole + numeral 10 fraction / 10 ^ fraction.length) * 10 ^ exponentValue l.exponent

/-- A floating-point number is the nearest one to what is written. -/
theorem nearest_toBinary64 (h : l.Spells cs) : Binary64.Nearest l.toRat l.toBinary64 := by
  have hdigits : ∀ digits : List Char, (∀ c ∈ digits, isDigit c = true) →
      Text.valueOf 10 digits = numeral 10 digits := fun _ hall =>
    Text.valueOf_eq_numeral fun c hc => Text.isHexDigit_of_isDigit (hall c hc)
  have hfraction : ∀ c ∈ l.fraction.getD [], isDigit c = true := by
    cases hpoint : l.fraction with
    | none => nofun
    | some digits => exact h.fraction digits hpoint
  have hscale : l.scale = exponentValue l.exponent := by
    rw [scale]
    obtain ⟨_, _, htail⟩ := h.text
    generalize l.exponent = exponent at htail
    cases htail with
    | absent => rfl
    | signed _ _ hmore =>
      dsimp only [exponentValue]
      rw [hdigits _ hmore.2]
  have hvalue : l.toRat = (Text.valueOf 10 (l.whole ++ l.fraction.getD []) : ℚ) *
      10 ^ (l.scale - (l.fraction.getD []).length : Int) := by
    have hten : (10 : ℚ) ^ (l.fraction.getD []).length ≠ 0 := by positivity
    rw [hdigits _ (List.forall_mem_append.2 ⟨h.whole, hfraction⟩), Text.numeral_append, hscale,
      zpow_sub₀ (by norm_num), zpow_natCast, toRat]
    push_cast
    field_simp
  rw [hvalue]
  exact Binary64.nearest_ofDecimal _ _

end Decimal.Literal
end Ecma3
