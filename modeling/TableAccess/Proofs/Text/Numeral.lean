import Mathlib.Tactic.Ring
import TableAccess.Proofs.Json.Numeral
import TableAccess.Text.Numeral

/-!
# Integers in strings

An integer may be written as a string, and what is read as an integer is read as a decimal number too.

* `Text.integer?_text`: **the text of an integer stands for it.** `Text.isInteger_text`: so it stands for an
  integer of 64 bits with a sign exactly if it is the text of one.
* `Text.isFiniteNumber_of_isInteger`: **what stands for an integer stands for a finite number**, with any
  sign and any number of leading zeros.
-/

namespace TableAccess.Text

/-! ## Digits -/

theorem foldl_digits (ds : List Nat) (m : Nat) :
    ds.foldl (fun n d => n * 10 + d) m = m * 10 ^ ds.length + digitsValue ds := by
  induction ds generalizing m with
  | nil => simp [digitsValue]
  | cons d ds ih =>
    rw [digitsValue, List.foldl_cons, List.foldl_cons, ih, ih (0 * 10 + d), List.length_cons]
    ring

theorem digitsValue_cons (d : Nat) (ds : List Nat) :
    digitsValue (d :: ds) = d * 10 ^ ds.length + digitsValue ds := by
  rw [digitsValue, List.foldl_cons, foldl_digits, Nat.zero_mul, Nat.zero_add]

theorem digitsValue_map_digit (cs : List Char) :
    digitsValue (cs.map Numeral.digit) = Nat.ofDigitChars 10 cs 0 := by
  have key : ∀ m, (cs.map Numeral.digit).foldl (fun n d => n * 10 + d) m = Nat.ofDigitChars 10 cs m := by
    induction cs with
    | nil => exact fun _ => rfl
    | cons c cs ih =>
      intro m
      rw [List.map_cons, List.foldl_cons, ih, Nat.ofDigitChars_cons, Nat.mul_comm m 10]
      rfl
  exact key 0

/-- Zeros in front of digits do not count. -/
theorem digitsValue_dropWhile (ds : List Nat) : digitsValue (ds.dropWhile (· == 0)) = digitsValue ds := by
  induction ds with
  | nil => rfl
  | cons d ds ih =>
    cases d with
    | zero => exact ih
    | succ d => rfl

/-- A number below a power of ten has few digits behind its leading zeros. -/
theorem length_dropWhile_le {ds : List Nat} {k : Nat} (h : digitsValue ds < 10 ^ k) :
    (ds.dropWhile (· == 0)).length ≤ k := by
  rw [← digitsValue_dropWhile] at h
  cases hd : ds.dropWhile (· == 0) with
  | nil => exact Nat.zero_le k
  | cons d rest =>
    have hpos : d ≠ 0 := by
      have hhead := List.head_dropWhile_not (p := (· == 0)) (l := ds) (by simp [hd])
      simpa [hd] using hhead
    rw [hd, digitsValue_cons] at h
    have hlt : 10 ^ rest.length < 10 ^ k := by
      calc 10 ^ rest.length ≤ d * 10 ^ rest.length := Nat.le_mul_of_pos_left _ (Nat.pos_of_ne_zero hpos)
        _ < 10 ^ k := by omega
    exact (Nat.pow_lt_pow_iff_right (by decide)).1 hlt

/-! ## Integers -/

theorem natural?_eq_some {cs : List Char} {n : Nat} : natural? cs = some n ↔
    cs ≠ [] ∧ (∀ c ∈ cs, c.isDigit = true) ∧ digitsValue (cs.map Numeral.digit) = n := by
  simp [natural?, and_assoc]

theorem natural?_natChars (n : Nat) : natural? (Number.natChars n) = some n :=
  natural?_eq_some.2 ⟨Nat.toDigits_ne_nil, fun _ hc => Numeral.isDigit_natChars hc,
    (digitsValue_map_digit _).trans Nat.ofDigitChars_ten_toDigits⟩

theorem integer?_eq_some {s : String} {k : Int} :
    integer? s = some k ↔ ∃ n : Nat, natural? (splitSign s.toList).2 = some n ∧
      (if (splitSign s.toList).1 then -(n : Int) else n) = k := by
  simp [integer?, Option.bind_eq_some_iff]

theorem splitSign_natChars (n : Nat) : splitSign (Number.natChars n) = (false, Number.natChars n) := by
  have hsign : ∀ c r, Number.natChars n = c :: r → c ≠ '-' ∧ c ≠ '+' := by
    intro c r h
    have hc : c.isDigit = true := Numeral.isDigit_natChars (n := n) (h ▸ List.mem_cons_self)
    constructor <;> rintro rfl <;> exact absurd hc (by decide)
  unfold splitSign
  split
  next h => exact absurd rfl (hsign _ _ h).1
  next h => exact absurd rfl (hsign _ _ h).2
  next => rfl

/-- **The text of an integer stands for it.** -/
theorem integer?_text (n : Int) : integer? (Number.int n).text = some n := by
  rw [integer?, Number.text, String.toList_ofList, Number.chars]
  cases n with
  | ofNat n =>
    rw [Number.intChars, splitSign_natChars, natural?_natChars]
    rfl
  | negSucc n =>
    rw [Number.intChars, splitSign, natural?_natChars]
    rfl

theorem isInteger_text (n : Int) :
    isInteger (Number.int n).text = true ↔ Number.minInt ≤ n ∧ n ≤ Number.maxInt := by
  simp [isInteger, integer?_text]

theorem isInteger_eq_true {s : String} :
    isInteger s = true ↔ ∃ n, integer? s = some n ∧ Number.minInt ≤ n ∧ n ≤ Number.maxInt := by
  unfold isInteger
  cases integer? s <;> simp

/-- A string that stands for an integer is digits behind a sign, of which less than twenty count. -/
theorem natural?_of_isInteger {s : String} (h : isInteger s = true) :
    ∃ n < 10 ^ 19, natural? (splitSign s.toList).2 = some n := by
  obtain ⟨k, hk, hmin, hmax⟩ := isInteger_eq_true.1 h
  obtain ⟨n, hn, rfl⟩ := integer?_eq_some.1 hk
  refine ⟨n, ?_, hn⟩
  unfold Number.minInt at hmin
  unfold Number.maxInt at hmax
  cases hsign : (splitSign s.toList).1 with
  | true =>
    rw [hsign, if_pos rfl] at hmin
    omega
  | false =>
    rw [hsign, if_neg nofun] at hmax
    omega

/-! ## Decimal numbers -/

theorem decimal?_of_natural? {cs : List Char} {n : Nat} (h : natural? cs = some n) :
    decimal? cs = some ⟨cs.map Numeral.digit, [], 0⟩ := by
  obtain ⟨hne, hdigits, -⟩ := natural?_eq_some.1 h
  have hall : Numeral.digits cs = (cs.map Numeral.digit, []) := by
    rw [Numeral.digits, List.takeWhile_eq_self_iff.2 hdigits, List.dropWhile_eq_nil_iff.2 hdigits]
  simp [decimal?, hall, hne, power?]

/-- **What stands for an integer stands for a finite number.** -/
theorem isFiniteNumber_of_isInteger {s : String} (h : isInteger s = true) : isFiniteNumber s = true := by
  obtain ⟨n, hn, hnatural⟩ := natural?_of_isInteger h
  have hlength : (((splitSign s.toList).2.map Numeral.digit).dropWhile (· == 0)).length ≤ 19 :=
    length_dropWhile_le ((natural?_eq_some.1 hnatural).2.2.trans_lt hn)
  unfold isFiniteNumber
  rw [decimal?_of_natural? hnatural]
  -- so few digits are far from the greatest number, which has over three hundred
  simp only [DecimalText.isFinite, List.append_nil, List.length_nil, Bool.or_eq_true, decide_eq_true_eq]
  rw [if_pos (.inr (by omega))]

end TableAccess.Text
