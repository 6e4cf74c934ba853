import TableAccess.Binary64.Shortest
import TableAccess.Proofs.Binary64.Rounding

/-!
# What a number is written as

The decimal that a number is written as lies in the interval of what rounds to the number. Seventeen digits
are always enough for that: the grid of so many digits is finer than the interval is wide.

* `Interval.high`, `Interval.low`: the ends of the interval around a number.
* `le_decimalExponent`: the power of ten that a search starts from is not above the number.
* `onGrid_of_seventeen`: seventeen digits are enough.
* `shortest_le`: **a number is written as a decimal that is not zero and at most half a step above it.**
-/

namespace TableAccess.Binary64

/-- The value of a decimal. -/
def Decimal.value (d : Decimal) : ℚ := d.digits * 10 ^ d.exponent

theorem tenPower_pos (e : Int) : 0 < (tenPower e).1 ∧ 0 < (tenPower e).2 := by
  unfold tenPower
  cases e with
  | ofNat e => exact ⟨Nat.pow_pos (by decide), Nat.one_pos⟩
  | negSucc e => exact ⟨Nat.one_pos, Nat.pow_pos (by decide)⟩

theorem tenPower_eq (e : Int) : ((tenPower e).1 : ℚ) / (tenPower e).2 = 10 ^ e := by
  unfold tenPower
  cases e with
  | ofNat e => simp
  | negSucc e =>
    simp only [Nat.pow_eq, zpow_negSucc]
    push_cast
    rw [one_div]

/-! ## Intervals -/

namespace Interval

variable {i : Interval} {n d : Nat}

/-- The lower end. -/
def lowEnd (i : Interval) : ℚ := i.low / i.den

/-- The number that the interval is around. -/
def middle (i : Interval) : ℚ := i.mid / i.den

/-- The upper end. -/
def highEnd (i : Interval) : ℚ := i.high / i.den

theorem le_of_holds (hi : 0 < i.den) (hd : 0 < d) (h : i.holds n d = true) :
    (n : ℚ) / d ≤ i.highEnd := by
  have hiq : (0 : ℚ) < i.den := by exact_mod_cast hi
  have hdq : (0 : ℚ) < d := by exact_mod_cast hd
  have hle : n * i.den ≤ i.high * d := by
    unfold holds at h
    split at h
    · simp only [Bool.and_eq_true, decide_eq_true_eq] at h
      exact h.2
    · simp only [Bool.and_eq_true, decide_eq_true_eq] at h
      exact h.2.le
  rw [highEnd, div_le_div_iff₀ hdq hiq]
  exact_mod_cast hle

/-- What is strictly between the ends is in the interval, whether they belong to it or not. -/
theorem holds_of_lt (hi : 0 < i.den) (hd : 0 < d) (hlow : i.lowEnd < n / d) (hhigh : (n : ℚ) / d < i.highEnd) :
    i.holds n d = true := by
  have hiq : (0 : ℚ) < i.den := by exact_mod_cast hi
  have hdq : (0 : ℚ) < d := by exact_mod_cast hd
  rw [lowEnd, div_lt_div_iff₀ hiq hdq] at hlow
  rw [highEnd, div_lt_div_iff₀ hdq hiq] at hhigh
  have hlow : i.low * d < n * i.den := by exact_mod_cast hlow
  have hhigh : n * i.den < i.high * d := by exact_mod_cast hhigh
  unfold holds
  split
  · simp only [Bool.and_eq_true, decide_eq_true_eq]
    exact ⟨hlow.le, hhigh.le⟩
  · simp only [Bool.and_eq_true, decide_eq_true_eq]
    exact ⟨hlow, hhigh⟩

end Interval

variable {x : Binary64}

theorem interval_den_pos (x : Binary64) : 0 < x.interval.den :=
  Nat.mul_pos (by decide) (ratio_pos _)

/-- One step between numbers of the exponent of `x`. -/
theorem ratio_step (x : Binary64) :
    ((ratio { x with significand := 1 }).1 : ℚ) / (ratio { x with significand := 1 }).2 = 2 ^ x.exponent := by
  rw [ratio_eq, magnitude, Nat.cast_one, one_mul]

theorem highEnd_interval (x : Binary64) :
    x.interval.highEnd = (x.significand + 1 / 2) * 2 ^ x.exponent := by
  have hstep := ratio_step x
  have hpos : ((ratio { x with significand := 1 }).2 : ℚ) ≠ 0 := by
    exact_mod_cast (ratio_pos _).ne'
  simp only [Interval.highEnd, interval]
  rw [← hstep]
  push_cast
  field_simp
  ring

theorem middle_interval (x : Binary64) : x.interval.middle = x.magnitude := by
  have hstep := ratio_step x
  have hpos : ((ratio { x with significand := 1 }).2 : ℚ) ≠ 0 := by
    exact_mod_cast (ratio_pos _).ne'
  simp only [Interval.middle, interval]
  rw [magnitude, ← hstep]
  push_cast
  field_simp

/-- The lower end is a half step below the number, or at a power of two a quarter. -/
theorem lowEnd_interval (h : x.significand ≠ 0) :
    x.interval.lowEnd = (x.significand - 1 / 2) * 2 ^ x.exponent ∨
      x.significand = hiddenBit ∧ x.interval.lowEnd = (x.significand - 1 / 4) * 2 ^ x.exponent := by
  have hstep := ratio_step x
  have hpos : ((ratio { x with significand := 1 }).2 : ℚ) ≠ 0 := by
    exact_mod_cast (ratio_pos _).ne'
  have h1 : 1 ≤ 4 * x.significand := by omega
  have h2 : 2 ≤ 4 * x.significand := by omega
  by_cases hm : x.significand == hiddenBit && x.exponent > minExponent
  · right
    refine ⟨beq_iff_eq.1 (Bool.and_eq_true_iff.1 hm).1, ?_⟩
    simp only [Interval.lowEnd, interval, hm, if_true]
    rw [← hstep]
    push_cast [h1]
    field_simp
  · left
    simp only [Interval.lowEnd, interval, hm]
    rw [← hstep]
    push_cast [h2]
    field_simp
    ring

/-! ## Grids -/

/-- The number of steps of `10 ^ g` below the middle of an interval. -/
def stepsBelow (i : Interval) (g : Int) : Nat := i.mid * (tenPower g).2 / (i.den * (tenPower g).1)

theorem onGrid_eq (i : Interval) (g : Int) : ∃ preferLow : Bool, onGrid i g =
    if (stepsBelow i g != 0 && i.holds (stepsBelow i g * (tenPower g).1) (tenPower g).2) &&
        (preferLow || !i.holds ((stepsBelow i g + 1) * (tenPower g).1) (tenPower g).2) then
      some ⟨stepsBelow i g, g⟩
    else if i.holds ((stepsBelow i g + 1) * (tenPower g).1) (tenPower g).2 then
      some ⟨stepsBelow i g + 1, g⟩
    else none := by
  unfold onGrid stepsBelow
  exact ⟨_, rfl⟩

theorem step_value (n : Nat) (g : Int) :
    ((n * (tenPower g).1 : ℕ) : ℚ) / (tenPower g).2 = n * 10 ^ g := by
  rw [← tenPower_eq g, Nat.cast_mul, mul_div_assoc]

/-- **A point that is found is not zero, and not above the interval.** -/
theorem le_of_onGrid {i : Interval} (hi : 0 < i.den) {g : Int} {d : Decimal} (h : onGrid i g = some d) :
    d.digits ≠ 0 ∧ d.value ≤ i.highEnd := by
  obtain ⟨preferLow, heq⟩ := onGrid_eq i g
  rw [heq] at h
  split at h
  next hlow =>
    obtain rfl := Option.some.inj h
    simp only [Bool.and_eq_true, bne_iff_ne] at hlow
    refine ⟨hlow.1.1, ?_⟩
    have hle := Interval.le_of_holds hi (tenPower_pos g).2 hlow.1.2
    rwa [step_value] at hle
  next =>
    split at h
    next hhigh =>
      obtain rfl := Option.some.inj h
      refine ⟨Nat.succ_ne_zero _, ?_⟩
      have hle := Interval.le_of_holds hi (tenPower_pos g).2 hhigh
      rwa [step_value] at hle
    next => cases h

theorem holds_of_onGrid_eq_none {i : Interval} {g : Int} (h : onGrid i g = none) :
    (stepsBelow i g = 0 ∨ i.holds (stepsBelow i g * (tenPower g).1) (tenPower g).2 = false) ∧
      i.holds ((stepsBelow i g + 1) * (tenPower g).1) (tenPower g).2 = false := by
  obtain ⟨preferLow, heq⟩ := onGrid_eq i g
  rw [heq] at h
  split at h
  · cases h
  next hlow =>
    split at h
    · cases h
    next hhigh =>
      rw [Bool.not_eq_true] at hhigh
      rw [hhigh] at hlow
      refine ⟨?_, hhigh⟩
      by_cases hzero : stepsBelow i g = 0
      · exact .inl hzero
      · exact .inr (by simpa [hzero] using hlow)

/-- The middle is between the steps below it and one more. -/
theorem stepsBelow_spec {i : Interval} (hi : 0 < i.den) (g : Int) :
    stepsBelow i g * 10 ^ g ≤ i.middle ∧ i.middle < (stepsBelow i g + 1) * 10 ^ g := by
  have hpos : 0 < i.den * (tenPower g).1 := Nat.mul_pos hi (tenPower_pos g).1
  have hiq : (0 : ℚ) < i.den := by exact_mod_cast hi
  have htq : (0 : ℚ) < (tenPower g).2 := by exact_mod_cast (tenPower_pos g).2
  have hle : stepsBelow i g * (i.den * (tenPower g).1) ≤ i.mid * (tenPower g).2 := Nat.div_mul_le_self _ _
  have hlt : i.mid * (tenPower g).2 < (stepsBelow i g + 1) * (i.den * (tenPower g).1) :=
    Nat.lt_mul_of_div_lt (Nat.lt_succ_self _) hpos
  have hle : (stepsBelow i g : ℚ) * (i.den * (tenPower g).1) ≤ i.mid * (tenPower g).2 := by
    exact_mod_cast hle
  have hlt : (i.mid : ℚ) * (tenPower g).2 < (stepsBelow i g + 1) * (i.den * (tenPower g).1) := by
    exact_mod_cast hlt
  rw [Interval.middle, ← tenPower_eq g]
  constructor
  · rw [le_div_iff₀ hiq, mul_div_assoc', div_mul_eq_mul_div, div_le_iff₀ htq]
    linarith
  · rw [div_lt_iff₀ hiq, mul_div_assoc', div_mul_eq_mul_div, lt_div_iff₀ htq]
    linarith

/-- On a grid that is finer than the interval is wide, and has a point below the middle, there is a point
in the interval. -/
theorem onGrid_ne_none {i : Interval} (hi : 0 < i.den) {g : Int} (hone : (10 : ℚ) ^ g ≤ i.middle)
    (hlow : i.lowEnd < i.middle) (hhigh : i.middle < i.highEnd) (hwide : 10 ^ g < i.highEnd - i.lowEnd) :
    onGrid i g ≠ none := by
  intro hnone
  obtain ⟨hbelow, habove⟩ := holds_of_onGrid_eq_none hnone
  obtain ⟨hle, hlt⟩ := stepsBelow_spec hi g
  have hp : (0 : ℚ) < 10 ^ g := zpow_pos (by norm_num) _
  have hpoint := fun n : Nat => Interval.holds_of_lt (i := i) (n := n * (tenPower g).1) hi (tenPower_pos g).2
  simp only [step_value] at hpoint
  -- the point above is beyond the interval
  have habove : i.highEnd ≤ (stepsBelow i g + 1) * 10 ^ g := by
    by_contra hlt'
    have hholds := hpoint (stepsBelow i g + 1)
    push_cast at hholds
    rw [hholds (hlow.trans hlt) (not_le.1 hlt')] at habove
    cases habove
  -- so is the point below
  have hbelow : stepsBelow i g * 10 ^ g ≤ i.lowEnd := by
    rcases hbelow with hzero | hfalse
    · rw [hzero, Nat.cast_zero, zero_add, one_mul] at hlt
      linarith
    · by_contra hlt'
      rw [hpoint _ (not_le.1 hlt') (hle.trans_lt hhigh)] at hfalse
      cases hfalse
  linarith

/-! ## Where the search starts -/

theorem fits_iff {num den : Nat} (hd : 0 < den) (k : Int) :
    (tenPower k).1 * den ≤ num * (tenPower k).2 ↔ (10 : ℚ) ^ k ≤ num / den := by
  have hdq : (0 : ℚ) < den := by exact_mod_cast hd
  have htq : (0 : ℚ) < (tenPower k).2 := by exact_mod_cast (tenPower_pos k).2
  rw [← tenPower_eq k, div_le_div_iff₀ htq hdq]
  exact_mod_cast Iff.rfl

/-- What is guessed of a power of ten, for a power of two. -/
def guess (l : Int) : Int := (l * 1233).fdiv 4096

theorem tenPower_le_iff (k e : Int) :
    (scaled (tenPower k).1 (tenPower k).2 e).1 ≤ (scaled (tenPower k).1 (tenPower k).2 e).2 ↔
      (10 : ℚ) ^ k ≤ 2 ^ e := by
  have hpos : (0 : ℚ) < (scaled (tenPower k).1 (tenPower k).2 e).2 := by
    exact_mod_cast scaled_pos (tenPower_pos k).2 e
  rw [← Nat.cast_le (α := ℚ), ← div_le_one hpos, scaled_eq, tenPower_eq,
    div_le_one (zpow_pos (by norm_num) _)]

/-- For all exponents that a number can have, two less than the guess is not too high. -/
theorem guess_sub_two_le {l : Int} (h1 : -1074 ≤ l) (h2 : l ≤ 1024) :
    (10 : ℚ) ^ (guess l - 2) ≤ 2 ^ (l - 1) := by
  -- the guess multiplies by a bit more than the logarithm, so it is checked on the whole range
  have hall : ∀ n ∈ List.range 2099, ∀ t ∈ [tenPower (guess (n - 1074) - 2)],
      (scaled t.1 t.2 (n - 1074 - 1)).1 ≤ (scaled t.1 t.2 (n - 1074 - 1)).2 := by
    decide +kernel
  obtain ⟨n, rfl⟩ : ∃ n : Nat, l = n - 1074 := ⟨(l + 1074).toNat, by omega⟩
  exact (tenPower_le_iff _ _).1 (hall n (List.mem_range.2 (by omega)) _ List.mem_cons_self)

theorem decimalExponent_cases (num : Nat) {den : Nat} (hd : 0 < den) :
    (10 : ℚ) ^ decimalExponent num den ≤ num / den ∨
      decimalExponent num den = guess ((num.log2 : ℤ) - den.log2) - 2 := by
  simp only [decimalExponent, decide_eq_true_eq, fits_iff hd]
  split
  next h => exact .inl h
  next =>
    split
    next h => exact .inl h
    next =>
      split
      next h => exact .inl h
      next => exact .inr rfl

/-- **The search starts from a power of ten that is not above the number.** -/
theorem le_decimalExponent (hx : x.IsFinite) (h0 : x.significand ≠ 0) :
    (10 : ℚ) ^ decimalExponent x.ratio.1 x.ratio.2 ≤ x.magnitude := by
  have hone : (1 : ℚ) ≤ x.significand := by exact_mod_cast Nat.one_le_iff_ne_zero.2 h0
  have hleast : (2 : ℚ) ^ (-1074 : ℤ) ≤ x.magnitude := by
    calc (2 : ℚ) ^ (-1074 : ℤ) ≤ 2 ^ x.exponent := zpow_le_zpow_right₀ (by norm_num) hx.least
      _ ≤ x.magnitude := le_mul_of_one_le_left (zpow_nonneg (by norm_num) _) hone
  have hgreatest : x.magnitude < 2 ^ (1024 : ℤ) := hx.magnitude_lt.trans overflow_lt
  have hden := x.ratio_pos
  have hnum : x.ratio.1 ≠ 0 := by
    intro hzero
    rw [← ratio_eq, hzero, Nat.cast_zero, zero_div] at hleast
    exact absurd hleast (not_le.2 (zpow_pos (by norm_num) _))
  rw [← ratio_eq] at hleast hgreatest ⊢
  rcases decimalExponent_cases x.ratio.1 hden with h | h
  · exact h
  · obtain ⟨hlow, hhigh⟩ := le_log2_quotient hnum hden.ne'
    rw [h]
    generalize (x.ratio.1.log2 : ℤ) - x.ratio.2.log2 = l at hlow hhigh ⊢
    have h1 : (-1074 : ℤ) < l + 1 := (zpow_lt_zpow_iff_right₀ (by norm_num : (1 : ℚ) < 2)).1
      (hleast.trans_lt hhigh)
    have h2 : l - 1 < 1024 := (zpow_lt_zpow_iff_right₀ (by norm_num : (1 : ℚ) < 2)).1
      (hlow.trans hgreatest)
    exact (guess_sub_two_le (by omega) (by omega)).trans hlow.le

/-! ## The decimal that is written -/

/-- The interval around a number is wider than two thirds of a step, and wider than a step but at a power
of two. -/
theorem interval_spec (h0 : x.significand ≠ 0) :
    x.interval.lowEnd < x.magnitude ∧ x.magnitude < x.interval.highEnd ∧
      (x.interval.highEnd - x.interval.lowEnd = 2 ^ x.exponent ∨
        x.significand = hiddenBit ∧ x.interval.highEnd - x.interval.lowEnd = 3 / 4 * 2 ^ x.exponent) := by
  have hp : (0 : ℚ) < 2 ^ x.exponent := zpow_pos (by norm_num) _
  rw [highEnd_interval, magnitude]
  rcases lowEnd_interval h0 with hlow | ⟨hm, hlow⟩
  · rw [hlow]
    exact ⟨by linarith, by linarith, .inl (by ring)⟩
  · rw [hlow]
    exact ⟨by linarith, by linarith, .inr ⟨hm, by ring⟩⟩

/-- **Seventeen digits are enough.** -/
theorem onGrid_of_seventeen (hx : x.IsFinite) (h0 : x.significand ≠ 0) {k : Int}
    (hk : (10 : ℚ) ^ k ≤ x.magnitude) : onGrid x.interval (k - 16) ≠ none := by
  have hp : (0 : ℚ) < 2 ^ x.exponent := zpow_pos (by norm_num) _
  have hgrid : (10 : ℚ) ^ (k - 16) * 10 ^ 16 ≤ x.significand * 2 ^ x.exponent := by
    have : (10 : ℚ) ^ (k - 16) * 10 ^ 16 = 10 ^ k := by
      rw [zpow_sub₀ (by norm_num)]
      field_simp
    rw [this]
    exact hk
  have hbits : (x.significand : ℚ) < 2 ^ 53 := by
    have := hx.significand
    rw [hiddenBit_eq] at this
    exact_mod_cast (by omega : x.significand < 2 ^ 53)
  have hone : (1 : ℚ) ≤ x.significand := by exact_mod_cast Nat.one_le_iff_ne_zero.2 h0
  have hfine : (10 : ℚ) ^ (k - 16) < 2 ^ x.exponent := by nlinarith
  obtain ⟨hlow, hhigh, hwide⟩ := interval_spec h0
  rw [← middle_interval] at hlow hhigh
  refine onGrid_ne_none (interval_den_pos x) ?_ hlow hhigh ?_
  · rw [middle_interval, magnitude]
    nlinarith
  · rcases hwide with hwide | ⟨hm, hwide⟩
    · rwa [hwide]
    · -- the narrower interval is around a number with a small significand
      rw [hm, hiddenBit_eq] at hgrid
      push_cast at hgrid
      rw [hwide]
      linarith

theorem onGrid_of_firstHit {i : Interval} {k digits : Int} {steps : Nat} {d : Decimal}
    (h : firstHit i k steps digits = some d) : ∃ g, onGrid i g = some d := by
  induction steps generalizing digits with
  | zero => cases h
  | succ steps ih =>
    rw [firstHit] at h
    split at h
    next d' hd =>
      obtain rfl := Option.some.inj h
      exact ⟨_, hd⟩
    next => exact ih h

/-- A search that finds nothing has found nothing on any of its grids. -/
theorem onGrid_of_firstHit_eq_none {i : Interval} {k digits : Int} {steps : Nat}
    (h : firstHit i k steps digits = none) {j : Nat} (hj : j < steps) :
    onGrid i (k - (digits + j) + 1) = none := by
  induction steps generalizing digits j with
  | zero => omega
  | succ steps ih =>
    rw [firstHit] at h
    split at h
    · cases h
    next hnone =>
      cases j with
      | zero => simpa using hnone
      | succ j =>
        have hj := ih h (j := j) (by omega)
        rwa [show digits + 1 + (j : ℤ) = digits + (j + 1 : ℕ) by push_cast; ring] at hj

/-- **A number is written as a decimal that is not zero, and at most half a step above it.** -/
theorem shortest_le (hx : x.IsFinite) (h0 : x.significand ≠ 0) :
    x.shortest.digits ≠ 0 ∧ x.shortest.value ≤ (x.significand + 1 / 2) * 2 ^ x.exponent := by
  have hzero : x.isZero = false := by simp [isZero, h0]
  rw [← highEnd_interval]
  simp only [shortest, hzero, Bool.false_eq_true, if_false]
  cases hfirst : firstHit x.interval (decimalExponent x.ratio.1 x.ratio.2) 17 1 with
  | some d =>
    obtain ⟨g, hg⟩ := onGrid_of_firstHit hfirst
    exact le_of_onGrid (interval_den_pos x) hg
  | none =>
    have hlast := onGrid_of_firstHit_eq_none hfirst (j := 16) (by decide)
    have hgrid : decimalExponent x.ratio.1 x.ratio.2 - (1 + (16 : ℕ)) + 1 =
        decimalExponent x.ratio.1 x.ratio.2 - 16 := by
      push_cast
      ring
    rw [hgrid] at hlast
    exact absurd hlast (onGrid_of_seventeen hx h0 (le_decimalExponent hx h0))

end TableAccess.Binary64
