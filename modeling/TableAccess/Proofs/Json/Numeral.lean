import Mathlib.Data.List.TakeWhile
import Mathlib.Data.List.Basic
import Mathlib.Tactic.Common
import Mathlib.Tactic.IntervalCases
import TableAccess.Json.Number

/-!
# Numbers read back

A number that is written and read again need not be the same: reading rounds more than once. A
number *reads back* if it does come out the same.

* `scan_append`: a numeral is read the same whatever stands behind it, if that cannot continue it.
* `readsBack_int`: **every integer of 64 bits reads back.**
-/

namespace TableAccess

/-- The text that a number is written as is a numeral that stands for this number. -/
def Number.ReadsBack (n : Number) : Prop :=
  ∃ m, Numeral.scan n.chars = some (m, []) ∧ m.value? = some n

/-- The text that a number is written as stands for the number `m`, which may be another one. -/
def Number.ReadsAs (n m : Number) : Prop :=
  ∃ k, Numeral.scan n.chars = some (k, []) ∧ k.value? = some m

namespace Numeral

/-- What cannot continue a numeral. -/
def Stops (rest : List Char) : Prop :=
  ∀ c r, rest = c :: r → c.isDigit = false ∧ c ≠ '.' ∧ c ≠ 'e' ∧ c ≠ 'E'

theorem stops_nil : Stops [] := fun _ _ h => by cases h

theorem stops_cons {c : Char} {r : List Char} (h : c = ',' ∨ c = ']' ∨ c = '\x7d') : Stops (c :: r) := by
  intro c' r' he
  cases he
  rcases h with rfl | rfl | rfl <;> decide

variable {cs rest : List Char}

/-! ## What stands behind a numeral -/

theorem digits_append (h : Stops rest) :
    digits (cs ++ rest) = ((digits cs).1, (digits cs).2 ++ rest) := by
  unfold digits
  induction cs with
  | nil =>
    cases rest with
    | nil => rfl
    | cons c r => simp [(h c r rfl).1]
  | cons c cs ih =>
    simp only [Prod.mk.injEq] at ih
    by_cases hc : c.isDigit = true
    · simp [hc, ih.1, ih.2]
    · simp [hc]

theorem scanWhole_append (h : Stops rest) {r : List Nat × List Char} (hs : scanWhole cs = some r) :
    scanWhole (cs ++ rest) = some (r.1, r.2 ++ rest) := by
  unfold scanWhole at hs ⊢
  rw [digits_append h]
  generalize digits cs = found at hs
  obtain ⟨ds, r'⟩ := found
  -- what is found is no numeral if it is empty, or a zero with a digit behind it
  match ds with
  | [] => cases hs
  | 0 :: _ :: _ => cases hs
  | [0] => obtain rfl := Option.some.inj hs; rfl
  | (d + 1) :: ds => obtain rfl := Option.some.inj hs; rfl

theorem scanFraction_append (h : Stops rest) {r : Option (List Nat) × List Char}
    (hs : scanFraction cs = some r) : scanFraction (cs ++ rest) = some (r.1, r.2 ++ rest) := by
  cases cs with
  | nil =>
    obtain rfl := Option.some.inj hs
    cases rest with
    | nil => rfl
    | cons c r => unfold scanFraction; split <;> simp_all [Stops]
  | cons c cs =>
    unfold scanFraction at hs
    split at hs
    next cs' he =>
      obtain ⟨rfl, rfl⟩ := List.cons.inj he
      simp only [List.cons_append, scanFraction, digits_append h]
      generalize digits cs = found at hs
      obtain ⟨ds, r'⟩ := found
      cases ds with
      | nil => cases hs
      | cons d ds => obtain rfl := Option.some.inj hs; rfl
    next hne =>
      obtain rfl := Option.some.inj hs
      have : c ≠ '.' := fun hc => hne cs (by rw [hc])
      simp [scanFraction, this]

theorem scanSign_append (h : cs ≠ []) :
    scanSign (cs ++ rest) = ((scanSign cs).1, (scanSign cs).2 ++ rest) := by
  cases cs with
  | nil => exact absurd rfl h
  | cons c cs =>
    by_cases h1 : c = '+'
    · subst h1; rfl
    · by_cases h2 : c = '-'
      · subst h2; rfl
      · simp [scanSign, h1, h2]

theorem scanPower_append (h : Stops rest) {r : Option (Bool × List Nat) × List Char}
    (hs : scanPower cs = some r) : scanPower (cs ++ rest) = some (r.1, r.2 ++ rest) := by
  cases cs with
  | nil =>
    obtain rfl := Option.some.inj hs
    cases rest with
    | nil => rfl
    | cons c r =>
      obtain ⟨-, -, h1, h2⟩ := h c r rfl
      simp [scanPower, h1, h2]
  | cons c cs =>
    simp only [List.cons_append, scanPower] at hs ⊢
    by_cases hc : (c == 'e' || c == 'E') = true
    · simp only [hc, if_true] at hs ⊢
      -- an `e` with nothing behind it is no power at all
      have hne : cs ≠ [] := by rintro rfl; cases hs
      rw [scanSign_append hne, digits_append h]
      generalize digits (scanSign cs).2 = found at hs
      obtain ⟨ds, r'⟩ := found
      cases ds with
      | nil => cases hs
      | cons d ds => obtain rfl := Option.some.inj hs; rfl
    · simp only [hc] at hs ⊢
      obtain rfl := Option.some.inj hs
      rfl

theorem scanUnsigned_append (h : Stops rest) {negative : Bool} {r : Numeral × List Char}
    (hs : scanUnsigned negative cs = some r) :
    scanUnsigned negative (cs ++ rest) = some (r.1, r.2 ++ rest) := by
  simp only [scanUnsigned, Option.bind_eq_bind, Option.bind_eq_some_iff, Option.pure_def,
    Option.some.injEq] at hs ⊢
  obtain ⟨w, hw, f, hf, p, hp, rfl⟩ := hs
  exact ⟨_, scanWhole_append h hw, _, scanFraction_append h hf, _, scanPower_append h hp, rfl⟩

/-- **A numeral is read the same whatever stands behind it**, if that cannot continue it. -/
theorem scan_append (h : Stops rest) {r : Numeral × List Char} (hs : scan cs = some r) :
    scan (cs ++ rest) = some (r.1, r.2 ++ rest) := by
  cases cs with
  | nil => cases hs
  | cons c cs =>
    by_cases hc : c = '-'
    · subst hc; exact scanUnsigned_append h hs
    · have h1 : ∀ cs, scan (c :: cs) = scanUnsigned false (c :: cs) := fun cs => by simp [scan, hc]
      rw [h1] at hs
      rw [List.cons_append, h1]
      exact scanUnsigned_append h hs

/-- A numeral starts with its sign or with a digit. -/
theorem head_of_scan {c : Char} {r : Numeral × List Char} (hs : scan (c :: cs) = some r) :
    c = '-' ∨ c.isDigit = true := by
  by_cases hc : c = '-'
  · exact .inl hc
  · right
    by_contra hd
    simp [scan, hc, scanUnsigned, scanWhole, digits, hd] at hs

/-! ## Digits -/

theorem le_ofDigitChars (cs : List Char) (m : Nat) : m ≤ Nat.ofDigitChars 10 cs m := by
  induction cs generalizing m with
  | nil => exact Nat.le_refl m
  | cons c cs ih =>
    rw [Nat.ofDigitChars_cons]
    have := ih (10 * m + (c.toNat - '0'.toNat))
    omega

theorem accumulate_digits (m : Nat) (h : Nat.ofDigitChars 10 cs m ≤ Number.maxNat) :
    accumulate m (cs.map digit) = (Nat.ofDigitChars 10 cs m, []) := by
  induction cs generalizing m with
  | nil => rfl
  | cons c cs ih =>
    rw [Nat.ofDigitChars_cons, Nat.mul_comm] at h ⊢
    have hle := le_ofDigitChars cs (m * 10 + digit c)
    -- further digits only make the number greater, so none before the last goes beyond 64 bits
    simp only [List.map_cons, accumulate]
    rw [if_pos (Nat.le_trans hle h)]
    exact ih _ h

theorem head_toDigits {n : Nat} (h : 0 < n) : ∀ r, Nat.toDigits 10 n ≠ '0' :: r := by
  induction n using Nat.strongRecOn with
  | ind n ih =>
    intro r
    by_cases hn : n < 10
    · rw [Nat.toDigits_of_lt_base hn]
      interval_cases n <;> simp [Nat.digitChar]
    · -- the first digit is that of the tenth part
      rw [Nat.toDigits_of_base_le (by decide) (by omega)]
      cases hd : Nat.toDigits 10 (n / 10) with
      | nil => exact absurd hd Nat.toDigits_ne_nil
      | cons c cs =>
        intro he
        rw [List.cons_append, List.cons.injEq] at he
        exact ih (n / 10) (by omega) (by omega) cs (by rw [hd, he.1])

theorem isDigit_natChars {n : Nat} {c : Char} (h : c ∈ Number.natChars n) : c.isDigit = true :=
  Nat.isDigit_of_mem_toDigits (by decide) (by decide) h

theorem digits_natChars (n : Nat) :
    digits (Number.natChars n) = ((Number.natChars n).map digit, []) := by
  unfold digits
  have h : ∀ c ∈ Number.natChars n, c.isDigit = true := fun _ hc => isDigit_natChars hc
  rw [List.takeWhile_eq_self_iff.2 h, List.dropWhile_eq_nil_iff.2 h]

theorem digit_eq_zero {c : Char} (h : c.isDigit = true) (h0 : digit c = 0) : c = '0' := by
  simp only [Char.isDigit, Bool.and_eq_true, decide_eq_true_eq] at h
  have h1 : '0'.toNat ≤ c.toNat := h.1
  have : c.toNat = '0'.toNat := by unfold digit at h0; omega
  exact Char.toNat_inj.1 this

theorem scanWhole_natChars (n : Nat) :
    scanWhole (Number.natChars n) = some ((Number.natChars n).map digit, []) := by
  unfold scanWhole
  rw [digits_natChars]
  cases hd : Number.natChars n with
  | nil => exact absurd hd Nat.toDigits_ne_nil
  | cons c cs =>
    split
    next he => cases (Prod.ext_iff.1 he).1
    next d ds r he =>
      -- two digits, of which the first is zero
      have hc : c = '0' := by
        refine digit_eq_zero (isDigit_natChars (n := n) (by rw [hd]; exact List.mem_cons_self)) ?_
        simpa using (List.cons.inj (Prod.ext_iff.1 he).1).1
      subst hc
      rcases Nat.eq_zero_or_pos n with rfl | hn
      · rw [Number.natChars, Nat.toDigits_zero] at hd
        obtain ⟨-, rfl⟩ := List.cons.inj hd
        simp at he
      · exact absurd hd (head_toDigits hn cs)
    next => rfl

theorem scanUnsigned_natChars (negative : Bool) (n : Nat) :
    scanUnsigned negative (Number.natChars n) =
      some (⟨negative, (Number.natChars n).map digit, none, none⟩, []) := by
  simp [scanUnsigned, scanWhole_natChars, scanFraction, scanPower]

theorem accumulate_natChars {n : Nat} (h : n ≤ Number.maxNat) :
    accumulate 0 ((Number.natChars n).map digit) = (n, []) := by
  have he : Nat.ofDigitChars 10 (Number.natChars n) 0 = n := Nat.ofDigitChars_ten_toDigits
  have := @accumulate_digits (Number.natChars n) 0 (by rw [he]; exact h)
  rwa [he] at this

theorem scan_natChars (n : Nat) :
    scan (Number.natChars n) =
      some (⟨false, (Number.natChars n).map digit, none, none⟩, []) := by
  cases hd : Number.natChars n with
  | nil => exact absurd hd Nat.toDigits_ne_nil
  | cons c cs =>
    have hc : c ≠ '-' := by
      rintro rfl
      have := isDigit_natChars (n := n) (c := '-') (by rw [hd]; exact List.mem_cons_self)
      exact absurd this (by decide)
    rw [← hd, ← scanUnsigned_natChars, hd]
    simp [scan, hc]

theorem le_of_accumulate {cs : List Char} {m v : Nat} (hm : m ≤ Number.maxNat)
    (h : accumulate m (cs.map digit) = (v, [])) : Nat.ofDigitChars 10 cs m ≤ Number.maxNat := by
  induction cs generalizing m with
  | nil => exact hm
  | cons c cs ih =>
    rw [List.map_cons, accumulate] at h
    split at h
    next hle =>
      rw [Nat.ofDigitChars_cons, Nat.mul_comm]
      exact ih hle h
    next => cases h

/-- Digits beyond 64 bits are no integer. -/
theorem value?_natChars_ne_int {n : Nat} (h : Number.maxNat < n) (k : Int) :
    (⟨false, (Number.natChars n).map digit, none, none⟩ : Numeral).value? ≠ some (.int k) := by
  have hb : (accumulate 0 ((Number.natChars n).map digit)).2 ≠ [] := by
    intro he
    have hle := le_of_accumulate (v := (accumulate 0 ((Number.natChars n).map digit)).1)
      (Nat.zero_le _) (Prod.ext rfl he)
    have hn : Nat.ofDigitChars 10 (Number.natChars n) 0 = n := Nat.ofDigitChars_ten_toDigits
    omega
  simp [value?, hb]

end Numeral

open Numeral in
/-- **Every integer of 64 bits reads back.** -/
theorem Number.readsBack_int {n : Int} (h : Number.isInteger n = true) : (Number.int n).ReadsBack := by
  simp only [Number.isInteger, Bool.and_eq_true, decide_eq_true_eq] at h
  unfold Number.minInt at h
  cases n with
  | ofNat n =>
    refine ⟨_, scan_natChars n, ?_⟩
    have hn : n ≤ Number.maxNat := Int.ofNat_le.1 h.2
    simp [value?, accumulate_natChars hn]
  | negSucc n =>
    refine ⟨⟨true, (Number.natChars (n + 1)).map digit, none, none⟩, scanUnsigned_natChars true _, ?_⟩
    have hle : n + 1 ≤ 9223372036854775808 := by rw [Int.negSucc_eq] at h; omega
    have hn : n + 1 ≤ Number.maxNat := Nat.le_trans hle (by decide)
    simp only [value?, accumulate_natChars hn, Option.isNone_none, List.isEmpty_nil, Bool.and_self,
      Bool.not_true, Bool.and_false, Bool.false_eq_true, if_false]
    have h1 : -((n + 1 : Nat) : Int) ≥ Number.minInt := by simp only [Number.minInt]; omega
    rw [if_pos (by simpa using h1)]
    rfl

end TableAccess
