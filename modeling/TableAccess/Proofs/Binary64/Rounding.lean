import Mathlib.Algebra.Order.Field.Power
import Mathlib.Data.Rat.Cast.Order
import Mathlib.Tactic.FieldSimp
import Mathlib.Tactic.Linarith
import Mathlib.Tactic.NormNum
import Mathlib.Tactic.Positivity
import Mathlib.Tactic.Ring
import TableAccess.Binary64.Basic

/-!
# Rounding

A quotient of natural numbers is rounded to a number of 53 bits. What is said of that here is what reading
a decimal needs: that it succeeds below the greatest number and half a step, and how far it can go up.

* `magnitude`: the value of a number, sign apart. `IsFinite`: its parts are within their bounds.
* `overflow`: from where on there is no number to round to.
* `exists_ofRatio`: **below that every quotient has a number.**
* `magnitude_ofRatio_le`: **rounding adds at most one part in `2 ^ 53`.**
-/

namespace TableAccess.Binary64

/-- The value of a number, sign apart. -/
def magnitude (x : Binary64) : ℚ := x.significand * 2 ^ x.exponent

/-- The parts of the number are within their bounds. -/
structure IsFinite (x : Binary64) : Prop where
  significand : x.significand < 2 * hiddenBit
  least : minExponent ≤ x.exponent
  greatest : x.exponent ≤ maxExponent

/-- Half a step above the greatest number: from here on there is no number to round to. -/
def overflow : ℚ := (2 ^ 53 - 1 / 2) * 2 ^ (971 : ℤ)

theorem hiddenBit_eq : hiddenBit = 2 ^ 52 := rfl

theorem isFinite_zero (negative : Bool) : (zero negative).IsFinite where
  significand := by show 0 < _; decide
  least := le_rfl
  greatest := by show minExponent ≤ maxExponent; decide

theorem magnitude_nonneg (x : Binary64) : 0 ≤ x.magnitude :=
  mul_nonneg (Nat.cast_nonneg _) (zpow_nonneg (by norm_num) _)

theorem overflow_lt : overflow < 2 ^ (1024 : ℤ) := by
  rw [overflow, show (1024 : ℤ) = 53 + 971 by norm_num, zpow_add₀ (by norm_num)]
  exact mul_lt_mul_of_pos_right (by norm_num) (zpow_pos (by norm_num) _)

/-- **No number is as great as half a step above the greatest.** -/
theorem IsFinite.magnitude_lt {x : Binary64} (h : x.IsFinite) : x.magnitude < overflow := by
  have hm : (x.significand : ℚ) ≤ 2 ^ 53 - 1 := by
    have := h.significand
    rw [hiddenBit_eq] at this
    have : x.significand + 1 ≤ 2 ^ 53 := by omega
    have : ((x.significand + 1 : ℕ) : ℚ) ≤ ((2 ^ 53 : ℕ) : ℚ) := by exact_mod_cast this
    push_cast at this
    linarith
  have he : (2 : ℚ) ^ x.exponent ≤ 2 ^ (971 : ℤ) := zpow_le_zpow_right₀ (by norm_num) h.greatest
  have hp : (0 : ℚ) < 2 ^ (971 : ℤ) := zpow_pos (by norm_num) _
  calc x.magnitude ≤ (2 ^ 53 - 1) * 2 ^ (971 : ℤ) :=
        mul_le_mul hm he (zpow_nonneg (by norm_num) _) (by norm_num)
    _ < overflow := mul_lt_mul_of_pos_right (by norm_num) hp

/-! ## Quotients -/

theorem ratio_pos (x : Binary64) : 0 < x.ratio.2 := by
  unfold ratio
  split
  · exact Nat.one_pos
  · exact Nat.pow_pos (by decide)

theorem ratio_eq (x : Binary64) : (x.ratio.1 : ℚ) / x.ratio.2 = x.magnitude := by
  unfold ratio magnitude
  cases x.exponent with
  | ofNat e => simp
  | negSucc e =>
    simp only [Nat.pow_eq, zpow_negSucc]
    push_cast
    rfl

theorem scaled_pos {num den : Nat} (hd : 0 < den) (e : Int) : 0 < (scaled num den e).2 := by
  unfold scaled
  cases e with
  | ofNat e => exact Nat.mul_pos hd (Nat.pow_pos (by decide))
  | negSucc e => exact hd

theorem scaled_eq (num den : Nat) (e : Int) :
    ((scaled num den e).1 : ℚ) / (scaled num den e).2 = num / den / 2 ^ e := by
  unfold scaled
  cases e with
  | ofNat e => simp [div_div]
  | negSucc e =>
    simp only [Nat.pow_eq, zpow_negSucc]
    push_cast
    rw [div_inv_eq_mul]
    ring

theorem div_le_roundHalfEven (num den : Nat) : num / den ≤ roundHalfEven num den := by
  simp only [roundHalfEven]
  repeat' split
  all_goals omega

/-- Rounding to the nearest natural number adds at most a half. -/
theorem roundHalfEven_le {num den : Nat} (hd : 0 < den) :
    (roundHalfEven num den : ℚ) ≤ num / den + 1 / 2 := by
  have hr : num % den < den := Nat.mod_lt _ hd
  have hq : den * (num / den) + num % den = num := Nat.div_add_mod num den
  have hround : 2 * roundHalfEven num den * den ≤ 2 * num + den := by
    simp only [roundHalfEven]
    generalize num / den = q at hq ⊢
    generalize num % den = r at hq hr ⊢
    subst hq
    split
    · nlinarith
    · split
      · nlinarith
      · split <;> nlinarith
  have hcast : (2 : ℚ) * roundHalfEven num den * den ≤ 2 * num + den := by exact_mod_cast hround
  have hdq : (0 : ℚ) < den := by exact_mod_cast hd
  rw [← sub_le_iff_le_add, le_div_iff₀ hdq]
  linarith

/-! ## Exponents -/

theorem le_log2_quotient {num den : Nat} (hn : num ≠ 0) (hd : den ≠ 0) :
    (2 : ℚ) ^ ((num.log2 : ℤ) - den.log2 - 1) < num / den ∧
      (num : ℚ) / den < 2 ^ ((num.log2 : ℤ) - den.log2 + 1) := by
  have hdq : (0 : ℚ) < den := by exact_mod_cast Nat.pos_of_ne_zero hd
  have h1 : (2 : ℚ) ^ (num.log2 : ℤ) ≤ num := by
    exact_mod_cast Nat.log2_self_le hn
  have h2 : (num : ℚ) < 2 ^ ((num.log2 : ℤ) + 1) := by
    exact_mod_cast Nat.lt_log2_self (n := num)
  have h3 : (2 : ℚ) ^ (den.log2 : ℤ) ≤ den := by
    exact_mod_cast Nat.log2_self_le hd
  have h4 : (den : ℚ) < 2 ^ ((den.log2 : ℤ) + 1) := by
    exact_mod_cast Nat.lt_log2_self (n := den)
  have two : (2 : ℚ) ≠ 0 := by norm_num
  constructor
  · rw [lt_div_iff₀ hdq]
    calc (2 : ℚ) ^ ((num.log2 : ℤ) - den.log2 - 1) * den
        < 2 ^ ((num.log2 : ℤ) - den.log2 - 1) * 2 ^ ((den.log2 : ℤ) + 1) :=
          mul_lt_mul_of_pos_left h4 (zpow_pos (by norm_num) _)
      _ = 2 ^ (num.log2 : ℤ) := by rw [← zpow_add₀ two]; congr 1; ring
      _ ≤ num := h1
  · rw [div_lt_iff₀ hdq]
    calc (num : ℚ) < 2 ^ ((num.log2 : ℤ) + 1) := h2
      _ = 2 ^ ((num.log2 : ℤ) - den.log2 + 1) * 2 ^ (den.log2 : ℤ) := by
          rw [← zpow_add₀ two]; congr 1; ring
      _ ≤ 2 ^ ((num.log2 : ℤ) - den.log2 + 1) * den :=
          mul_le_mul_of_nonneg_left h3 (zpow_nonneg (by norm_num) _)

/-- The exponent that a positive quotient would need to have 53 bits, and the one that it is given, which
is not below the least one. -/
theorem exponentOf_eq {num den : Nat} (hn : num ≠ 0) (hd : den ≠ 0) :
    ∃ e, exponentOf num den = max e minExponent ∧ (2 : ℚ) ^ (e + 52) ≤ num / den ∧
      (num : ℚ) / den < 2 ^ (e + 53) := by
  obtain ⟨hlow, hhigh⟩ := le_log2_quotient hn hd
  generalize hL : (num.log2 : ℤ) - den.log2 = L at hlow hhigh
  have hdq : (0 : ℚ) < (scaled num den (L - 52)).2 := by
    exact_mod_cast scaled_pos (Nat.pos_of_ne_zero hd) _
  -- comparing with the hidden bit decides between two exponents
  have hcompare : (scaled num den (L - 52)).1 < hiddenBit * (scaled num den (L - 52)).2 ↔
      (num : ℚ) / den < 2 ^ L := by
    rw [← Nat.cast_lt (α := ℚ), Nat.cast_mul, ← div_lt_iff₀ hdq, scaled_eq,
      div_lt_iff₀ (zpow_pos (by norm_num) _), hiddenBit_eq]
    have : ((2 ^ 52 : ℕ) : ℚ) * 2 ^ (L - 52) = 2 ^ L := by
      rw [zpow_sub₀ (by norm_num)]
      push_cast
      field_simp
    rw [this]
  have hexp : exponentOf num den =
      max (if (scaled num den (L - 52)).1 < hiddenBit * (scaled num den (L - 52)).2 then L - 52 - 1
        else L - 52) minExponent := by
    rw [exponentOf, hL]
  by_cases hr : (num : ℚ) / den < 2 ^ L
  · refine ⟨L - 53, ?_, ?_, ?_⟩
    · rw [hexp, if_pos (hcompare.2 hr)]
      congr 1
      ring
    · rw [show L - 53 + 52 = L - 1 by ring]
      exact hlow.le
    · rwa [show L - 53 + 53 = L by ring]
  · refine ⟨L - 52, ?_, ?_, ?_⟩
    · rw [hexp, if_neg (mt hcompare.1 hr)]
    · rw [show L - 52 + 52 = L by ring]
      exact not_lt.1 hr
    · rwa [show L - 52 + 53 = L + 1 by ring]

/-! ## Rounding a quotient -/

/-- The significand that a quotient is rounded to, before a carry. -/
def rounded (num den : Nat) : Nat :=
  roundHalfEven (scaled num den (exponentOf num den)).1 (scaled num den (exponentOf num den)).2

variable {negative : Bool} {num den : Nat} {x : Binary64}

/-- **Rounding a positive quotient**: the significand has at most one bit too many, which is carried. -/
theorem ofRatio_eq (hn : num ≠ 0) : ofRatio negative num den =
    if rounded num den = 2 * hiddenBit then
      if exponentOf num den + 1 > maxExponent then none
      else some ⟨negative, hiddenBit, exponentOf num den + 1⟩
    else if exponentOf num den > maxExponent then none
    else some ⟨negative, rounded num den, exponentOf num den⟩ := by
  simp only [ofRatio, beq_iff_eq, if_neg hn]
  show (if _ then _ else _) = _
  by_cases hc : rounded num den = 2 * hiddenBit
  · have hc' := hc
    unfold rounded at hc'
    simp only [hc, hc', if_true]
  · have hc' := hc
    unfold rounded at hc'
    simp only [hc, hc', if_false]
    rfl

theorem rounded_le (num : Nat) (hd : 0 < den) :
    (rounded num den : ℚ) ≤ num / den / 2 ^ exponentOf num den + 1 / 2 := by
  rw [← scaled_eq]
  exact roundHalfEven_le (scaled_pos hd _)

theorem rounded_le_two_mul (hn : num ≠ 0) (hd : 0 < den) : rounded num den ≤ 2 * hiddenBit := by
  obtain ⟨e, he, -, hhigh⟩ := exponentOf_eq hn (Nat.pos_iff_ne_zero.1 hd)
  have hp : (0 : ℚ) < 2 ^ exponentOf num den := zpow_pos (by norm_num) _
  have hquotient : (num : ℚ) / den / 2 ^ exponentOf num den < 2 ^ 53 := by
    rw [div_lt_iff₀ hp]
    calc (num : ℚ) / den < 2 ^ (e + 53) := hhigh
      _ ≤ 2 ^ (53 + exponentOf num den) :=
          zpow_le_zpow_right₀ (by norm_num) (by have := le_max_left e minExponent; omega)
      _ = 2 ^ 53 * 2 ^ exponentOf num den := by rw [zpow_add₀ (by norm_num)]; norm_num
  have hround := rounded_le num hd
  have hlt : (rounded num den : ℚ) < (2 ^ 53 + 1 : ℕ) := by
    push_cast
    linarith
  have hlt : rounded num den < 2 ^ 53 + 1 := by exact_mod_cast hlt
  rw [hiddenBit_eq]
  omega

/-- **What is rounded to is within the bounds.** -/
theorem isFinite_ofRatio (hd : 0 < den) (h : ofRatio negative num den = some x) : x.IsFinite := by
  by_cases hn : num = 0
  · rw [ofRatio, hn] at h
    obtain rfl := Option.some.inj h
    exact isFinite_zero negative
  obtain ⟨e, he, -⟩ := exponentOf_eq hn (Nat.pos_iff_ne_zero.1 hd)
  have hleast : minExponent ≤ exponentOf num den := he ▸ le_max_right _ _
  have hle := rounded_le_two_mul hn hd
  rw [ofRatio_eq hn] at h
  split at h
  · split at h
    · cases h
    next hmax =>
      obtain rfl := Option.some.inj h
      refine ⟨?_, ?_, not_lt.1 hmax⟩
      · show hiddenBit < 2 * hiddenBit
        decide
      · show minExponent ≤ exponentOf num den + 1
        omega
  next hc =>
    split at h
    · cases h
    next hmax =>
      obtain rfl := Option.some.inj h
      exact ⟨lt_of_le_of_ne hle hc, hleast, not_lt.1 hmax⟩

/-- **Below half a step above the greatest number every quotient has a number to round to.** -/
theorem exists_ofRatio (negative : Bool) (hd : 0 < den) (h : (num : ℚ) / den < overflow) :
    ∃ x, ofRatio negative num den = some x := by
  by_cases hn : num = 0
  · exact ⟨zero negative, by rw [ofRatio, hn]; rfl⟩
  obtain ⟨e, he, hlow, -⟩ := exponentOf_eq hn (Nat.pos_iff_ne_zero.1 hd)
  have hp : (0 : ℚ) < 2 ^ exponentOf num den := zpow_pos (by norm_num) _
  rw [ofRatio_eq hn]
  split
  next hc =>
    -- a carry needs almost another bit
    have hquotient : (2 ^ 53 - 1 / 2) * 2 ^ exponentOf num den ≤ (num : ℚ) / den := by
      have hround := rounded_le num hd
      rw [hc, hiddenBit_eq] at hround
      push_cast at hround
      rw [← le_div_iff₀ hp]
      linarith
    have hmax : ¬ exponentOf num den + 1 > maxExponent := by
      intro hmax
      have hpow : (2 : ℚ) ^ (971 : ℤ) ≤ 2 ^ exponentOf num den :=
        zpow_le_zpow_right₀ (by norm_num) (by rw [maxExponent] at hmax; omega)
      have : overflow ≤ (2 ^ 53 - 1 / 2) * 2 ^ exponentOf num den :=
        mul_le_mul_of_nonneg_left hpow (by norm_num)
      linarith
    exact ⟨_, if_neg hmax⟩
  next =>
    have hmax : ¬ exponentOf num den > maxExponent := by
      intro hmax
      have heq : exponentOf num den = e := by
        rw [he]
        exact max_eq_left (by rw [he, maxExponent, minExponent] at hmax; rw [minExponent]; omega)
      have hpow : (2 : ℚ) ^ (1024 : ℤ) ≤ 2 ^ (e + 52) :=
        zpow_le_zpow_right₀ (by norm_num) (by rw [← heq]; rw [maxExponent] at hmax; omega)
      have hover := overflow_lt
      linarith
    exact ⟨_, if_neg hmax⟩

theorem magnitude_ofRatio (hn : num ≠ 0) (h : ofRatio negative num den = some x) :
    x.magnitude = rounded num den * 2 ^ exponentOf num den := by
  rw [ofRatio_eq hn] at h
  split at h
  next hc =>
    split at h
    · cases h
    · obtain rfl := Option.some.inj h
      rw [magnitude, hc, zpow_add₀ (by norm_num)]
      push_cast
      ring
  next =>
    split at h
    · cases h
    · obtain rfl := Option.some.inj h
      rfl

/-- A quotient from one on has 53 bits. -/
theorem two_zpow_le_quotient (hn : num ≠ 0) (hd : 0 < den) (h1 : (1 : ℚ) ≤ num / den) :
    -52 ≤ exponentOf num den ∧ (2 : ℚ) ^ (exponentOf num den + 52) ≤ num / den := by
  obtain ⟨e, he, hlow, hhigh⟩ := exponentOf_eq hn (Nat.pos_iff_ne_zero.1 hd)
  have hpos : (2 : ℚ) ^ (0 : ℤ) < 2 ^ (e + 53) := by
    rw [zpow_zero]
    linarith
  have hexp : 0 < e + 53 := (zpow_lt_zpow_iff_right₀ (by norm_num)).1 hpos
  have heq : exponentOf num den = e := by
    rw [he]
    exact max_eq_left (by rw [minExponent]; omega)
  rw [heq]
  exact ⟨by omega, hlow⟩

/-- **Rounding adds at most one part in `2 ^ 53`**, from one on. -/
theorem magnitude_ofRatio_le (hd : 0 < den) (h1 : (1 : ℚ) ≤ num / den)
    (h : ofRatio negative num den = some x) : x.magnitude ≤ num / den * (1 + 1 / 2 ^ 53) := by
  have hn : num ≠ 0 := by
    rintro rfl
    norm_num at h1
  obtain ⟨-, hpow⟩ := two_zpow_le_quotient hn hd h1
  have hp : (0 : ℚ) < 2 ^ exponentOf num den := zpow_pos (by norm_num) _
  rw [zpow_add₀ (by norm_num)] at hpow
  have hhalf : (2 : ℚ) ^ exponentOf num den / 2 ≤ num / den / 2 ^ 53 := by
    rw [le_div_iff₀ (by norm_num)]
    norm_num at hpow ⊢
    linarith
  calc x.magnitude = rounded num den * 2 ^ exponentOf num den := magnitude_ofRatio hn h
    _ ≤ (num / den / 2 ^ exponentOf num den + 1 / 2) * 2 ^ exponentOf num den :=
        mul_le_mul_of_nonneg_right (rounded_le _ hd) hp.le
    _ = num / den + 2 ^ exponentOf num den / 2 := by field_simp
    _ ≤ num / den * (1 + 1 / 2 ^ 53) := by linarith

/-- Rounding does not take a quotient below one. -/
theorem one_le_magnitude_ofRatio (hd : 0 < den) (h1 : (1 : ℚ) ≤ num / den)
    (h : ofRatio negative num den = some x) : 1 ≤ x.magnitude := by
  have hn : num ≠ 0 := by
    rintro rfl
    norm_num at h1
  obtain ⟨hexp, hpow⟩ := two_zpow_le_quotient hn hd h1
  have hp : (0 : ℚ) < 2 ^ exponentOf num den := zpow_pos (by norm_num) _
  have hdq : (0 : ℚ) < (scaled num den (exponentOf num den)).2 := by exact_mod_cast scaled_pos hd _
  have hbits : 2 ^ 52 ≤ rounded num den := by
    refine le_trans ?_ (div_le_roundHalfEven _ _)
    rw [Nat.le_div_iff_mul_le (scaled_pos hd _), ← Nat.cast_le (α := ℚ), Nat.cast_mul,
      ← le_div_iff₀ hdq, scaled_eq, le_div_iff₀ hp]
    rw [zpow_add₀ (by norm_num)] at hpow
    push_cast
    norm_num at hpow ⊢
    linarith
  have hbits : (2 : ℚ) ^ 52 ≤ rounded num den := by exact_mod_cast hbits
  rw [magnitude_ofRatio hn h]
  calc (1 : ℚ) = 2 ^ 52 * 2 ^ (-52 : ℤ) := by norm_num
    _ ≤ rounded num den * 2 ^ exponentOf num den :=
        mul_le_mul hbits (zpow_le_zpow_right₀ (by norm_num) hexp) (zpow_nonneg (by norm_num) _)
          (Nat.cast_nonneg _)

/-! ## Products and quotients of numbers -/

variable {y z : Binary64}

theorem isFinite_mul (h : x.mul y = some z) : z.IsFinite :=
  isFinite_ofRatio (Nat.mul_pos x.ratio_pos y.ratio_pos) h

/-- **A product has a number** where it is below half a step above the greatest. -/
theorem exists_mul (h : x.magnitude * y.magnitude < overflow) : ∃ z, x.mul y = some z := by
  have hquotient : ((x.ratio.1 * y.ratio.1 : ℕ) : ℚ) / (x.ratio.2 * y.ratio.2 : ℕ) < overflow := by
    push_cast
    rwa [← div_mul_div_comm, ratio_eq, ratio_eq]
  exact exists_ofRatio _ (Nat.mul_pos x.ratio_pos y.ratio_pos) hquotient

/-- **A quotient by at least one has a number.** -/
theorem exists_div (hx : x.IsFinite) (hy : 1 ≤ y.magnitude) : ∃ z, x.div y = some z ∧ z.IsFinite := by
  have hone : 0 < y.ratio.1 := by
    by_contra hzero
    rw [← ratio_eq, Nat.eq_zero_of_not_pos hzero, Nat.cast_zero, zero_div] at hy
    norm_num at hy
  have hd : 0 < x.ratio.2 * y.ratio.1 := Nat.mul_pos x.ratio_pos hone
  have hquotient : ((x.ratio.1 * y.ratio.2 : ℕ) : ℚ) / (x.ratio.2 * y.ratio.1 : ℕ) < overflow := by
    push_cast
    rw [← div_div_div_eq, ratio_eq, ratio_eq]
    exact lt_of_le_of_lt (div_le_self x.magnitude_nonneg hy) hx.magnitude_lt
  obtain ⟨z, hz⟩ := exists_ofRatio (x.negative != y.negative) hd hquotient
  exact ⟨z, hz, isFinite_ofRatio hd hz⟩

end TableAccess.Binary64
