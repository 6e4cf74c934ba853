import TableAccess.Proofs.Binary64.Shortest
import TableAccess.Proofs.Json.Numeral

/-!
# Decimals that can be read

A decimal is read by rounding its digits and multiplying or dividing them by powers of ten, each of which is
rounded too. That gives no number only where it leads beyond the greatest one.

* `exists_divide`: dividing by powers of ten always gives a number.
* `exists_scale`: **a decimal with some room to the greatest number can be read.**
* `isFinite_scale`: what is read is a number with its parts within their bounds.
-/

namespace TableAccess

open Binary64

namespace Numeral

/-- Some steps below the greatest number, so that rounding three times stays below it. -/
def roomy : ℚ := (2 ^ 53 - 5 / 2) * 2 ^ (971 : ℤ)

theorem roomy_mul_lt : roomy * (1 + 1 / 2 ^ 53) * (1 + 1 / 2 ^ 53) < overflow := by
  have hp : (0 : ℚ) < 2 ^ (971 : ℤ) := zpow_pos (by norm_num) _
  calc roomy * (1 + 1 / 2 ^ 53) * (1 + 1 / 2 ^ 53)
      = (2 ^ 53 - 5 / 2) * (1 + 1 / 2 ^ 53) * (1 + 1 / 2 ^ 53) * 2 ^ (971 : ℤ) := by
        unfold roomy
        generalize (2 : ℚ) ^ (971 : ℤ) = p
        ring
    _ < (2 ^ 53 - 1 / 2) * 2 ^ (971 : ℤ) := mul_lt_mul_of_pos_right (by norm_num) hp

theorem roomy_lt : roomy < overflow := by
  rw [roomy, overflow]
  exact mul_lt_mul_of_pos_right (by norm_num) (zpow_pos (by norm_num) _)

theorem ten_pow_le {a b c : Nat} (h : Nat.pow 10 a ≤ c * Nat.pow 2 b) : (10 : ℚ) ^ a ≤ c * 2 ^ (b : ℤ) := by
  rw [zpow_natCast]
  exact_mod_cast h

theorem le_ten_pow {a b c : Nat} (h : c * Nat.pow 2 b ≤ Nat.pow 10 a) : (c : ℚ) * 2 ^ (b : ℤ) ≤ 10 ^ a := by
  rw [zpow_natCast]
  exact_mod_cast h

theorem ten_pow_lt : (10 : ℚ) ^ 308 < overflow := by
  have hp : (0 : ℚ) < 2 ^ (971 : ℤ) := zpow_pos (by norm_num) _
  calc (10 : ℚ) ^ 308 ≤ (9007199254740991 : ℕ) * 2 ^ ((971 : ℕ) : ℤ) := ten_pow_le (by decide +kernel)
    _ < overflow := mul_lt_mul_of_pos_right (by norm_num) hp

theorem roomy_lt_ten_pow : roomy < (10 : ℚ) ^ 309 := by
  have hp : (0 : ℚ) < 2 ^ (971 : ℤ) := zpow_pos (by norm_num) _
  calc roomy < (9007199254740992 : ℕ) * 2 ^ ((971 : ℕ) : ℤ) := mul_lt_mul_of_pos_right (by norm_num) hp
    _ ≤ 10 ^ 309 := le_ten_pow (by decide +kernel)

/-! ## Powers of ten -/

/-- The powers of ten that are computed with. -/
theorem exists_power {e : Nat} (he : e ≤ 308) : ∃ y, Binary64.ofNat (Nat.pow 10 e) = some y ∧
    1 ≤ y.magnitude ∧ y.magnitude ≤ 10 ^ e * (1 + 1 / 2 ^ 53) := by
  have hone : (1 : ℚ) ≤ ((Nat.pow 10 e : ℕ) : ℚ) / (1 : ℕ) := by
    rw [Nat.cast_one, div_one]
    exact_mod_cast Nat.one_le_pow e 10 (by decide)
  have hlt : ((Nat.pow 10 e : ℕ) : ℚ) / (1 : ℕ) < overflow := by
    rw [Nat.cast_one, div_one]
    calc ((Nat.pow 10 e : ℕ) : ℚ) = 10 ^ e := by rw [Nat.pow_eq, Nat.cast_pow, Nat.cast_ofNat]
      _ ≤ 10 ^ 308 := pow_le_pow_right₀ (by norm_num) he
      _ < overflow := ten_pow_lt
  obtain ⟨y, hy⟩ := exists_ofRatio false Nat.one_pos hlt
  refine ⟨y, hy, one_le_magnitude_ofRatio Nat.one_pos hone hy, ?_⟩
  have hle := magnitude_ofRatio_le Nat.one_pos hone hy
  rw [Nat.cast_one, div_one, Nat.pow_eq] at hle
  exact_mod_cast hle

/-- **Dividing by powers of ten always gives a number.** -/
theorem exists_divide {x : Binary64} (hx : x.IsFinite) (e steps : Nat) :
    ∃ z, scale.divide x e steps = some z ∧ z.IsFinite := by
  induction steps generalizing x e with
  | zero => exact ⟨x, rfl, hx⟩
  | succ steps ih =>
    rw [scale.divide]
    -- the power goes by a name here, so that it is not computed
    generalize hn : 308 = n
    by_cases he : e ≤ n
    · obtain ⟨y, hy, hone, -⟩ := exists_power (he.trans hn.ge)
      obtain ⟨z, hz, hfinite⟩ := exists_div hx hone
      rw [if_pos he, hy]
      exact ⟨z, hz, hfinite⟩
    · obtain ⟨y, hy, hone, -⟩ := exists_power hn.ge
      obtain ⟨z, hz, hfinite⟩ := exists_div hx hone
      rw [if_neg he, hy, Option.bind_eq_bind, Option.bind_some, hz]
      show ∃ w, (if z.isZero then some z else scale.divide z (e - n) steps) = some w ∧ _
      split
      · exact ⟨z, rfl, hfinite⟩
      · exact ih hfinite (e - n)

/-- Reading a decimal, its digits having been rounded. -/
theorem scale_eq {negative : Bool} {m : Nat} {x : Binary64} (h : Binary64.ofRatio negative m 1 = some x)
    (e : Int) : scale negative m e =
      if x.isZero then some x
      else match e with
        | .ofNat e => if e > 308 then none else (Binary64.ofNat (Nat.pow 10 e)).bind x.mul
        | .negSucc e => scale.divide x (e + 1) 5 := by
  rw [scale, h]
  rfl

theorem isFinite_scale {negative : Bool} {m : Nat} {e : Int} {x : Binary64}
    (h : scale negative m e = some x) : x.IsFinite := by
  cases hm : Binary64.ofRatio negative m 1 with
  | none =>
    rw [scale, hm] at h
    cases h
  | some y =>
    have hy := isFinite_ofRatio Nat.one_pos hm
    rw [scale_eq hm] at h
    split at h
    · exact Option.some.inj h ▸ hy
    · split at h
      next e =>
        split at h
        · cases h
        · obtain ⟨p, -, hmul⟩ := Option.bind_eq_some_iff.1 h
          exact isFinite_mul hmul
      next e =>
        obtain ⟨z, hz, hfinite⟩ := exists_divide hy (e + 1) 5
        exact Option.some.inj (hz.symm.trans h) ▸ hfinite

/-- A decimal with some room to the greatest number has a power that is computed with. -/
theorem power_le {m e : Nat} (hm : (1 : ℚ) ≤ m) (h : (m : ℚ) * 10 ^ e ≤ roomy) : e ≤ 308 := by
  have hpow : (10 : ℚ) ^ e ≤ roomy := (le_mul_of_one_le_left (by positivity) hm).trans h
  by_contra hgt
  have : (10 : ℚ) ^ 309 ≤ 10 ^ e := pow_le_pow_right₀ (by norm_num) (by omega)
  exact absurd roomy_lt_ten_pow (not_lt.2 (this.trans hpow))

/-- The rounded digits times the rounded power are within range: the room is what the two roundings
can add. -/
theorem magnitude_mul_lt {m e : Nat} {x y : Binary64} (h : (m : ℚ) * 10 ^ e ≤ roomy)
    (hx : x.magnitude ≤ m * (1 + 1 / 2 ^ 53)) (hy : y.magnitude ≤ 10 ^ e * (1 + 1 / 2 ^ 53)) :
    x.magnitude * y.magnitude < overflow := by
  calc x.magnitude * y.magnitude
      ≤ m * (1 + 1 / 2 ^ 53) * (10 ^ e * (1 + 1 / 2 ^ 53)) :=
        mul_le_mul hx hy y.magnitude_nonneg (by positivity)
    _ = m * 10 ^ e * (1 + 1 / 2 ^ 53) * (1 + 1 / 2 ^ 53) := by ring
    _ ≤ roomy * (1 + 1 / 2 ^ 53) * (1 + 1 / 2 ^ 53) := by gcongr
    _ < overflow := roomy_mul_lt

/-- **A decimal with some room to the greatest number can be read.** -/
theorem exists_scale (negative : Bool) {m : Nat} {e : Int} (hm : (m : ℚ) ≤ roomy)
    (h : (m : ℚ) * 10 ^ e ≤ roomy) : ∃ x, scale negative m e = some x := by
  have hlt : (m : ℚ) / (1 : ℕ) < overflow := by
    rw [Nat.cast_one, div_one]
    exact hm.trans_lt roomy_lt
  obtain ⟨x, hx⟩ := exists_ofRatio negative Nat.one_pos hlt
  rw [scale_eq hx]
  split
  · exact ⟨x, rfl⟩
  next hzero =>
    have hone : (1 : ℚ) ≤ m := by
      refine Nat.one_le_cast.2 (Nat.one_le_iff_ne_zero.2 ?_)
      rintro rfl
      rw [Binary64.ofRatio] at hx
      exact hzero (Option.some.inj hx ▸ rfl)
    cases e with
    | negSucc e =>
      obtain ⟨z, hz, -⟩ := exists_divide (isFinite_ofRatio Nat.one_pos hx) (e + 1) 5
      exact ⟨z, hz⟩
    | ofNat e =>
      rw [Int.ofNat_eq_natCast, zpow_natCast] at h
      have he : e ≤ 308 := power_le hone h
      have hxle := magnitude_ofRatio_le Nat.one_pos (by rwa [Nat.cast_one, div_one]) hx
      rw [Nat.cast_one, div_one] at hxle
      obtain ⟨y, hy, -, hyle⟩ := exists_power he
      obtain ⟨z, hz⟩ := exists_mul (magnitude_mul_lt h hxle hyle)
      refine ⟨z, ?_⟩
      show (if e > 308 then none else (Binary64.ofNat (Nat.pow 10 e)).bind x.mul) = some z
      rw [if_neg (by omega), hy]
      exact hz

end Numeral

end TableAccess
