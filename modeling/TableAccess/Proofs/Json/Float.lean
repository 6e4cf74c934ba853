import TableAccess.Proofs.Json.Scale
import TableAccess.Proofs.Json.Text

/-!
# Written floating-point numbers can be read

Reading a decimal rounds more than once, so a number that is written and read again may come out as its
neighbour. It never comes out as no number at all: what is written of a number has at most half a step more,
which leaves room to the greatest number, but for the few numbers that are next to it.

* `readsAsFloat_scientific`: **digits with a power of ten are read as a number**, if there is room.
* `exists_readFloat?`: **whatever finite number is written, what is written is read as a number.**
* `Number.IsSound`: the number is one that a text can stand for. `isSound_of_value?`: what is read is sound.
* `Number.readsAs_reread`: a sound number is read as a sound number, and an integer as itself.
-/

namespace TableAccess

open Binary64 Number

namespace Numeral

/-! ## Digits that are taken -/

/-- The digits taken stand for a number of 64 bits. -/
theorem accumulate_le {m : Nat} (hm : m ≤ maxNat) (ds : List Nat) :
    (accumulate m ds).1 ≤ maxNat := by
  induction ds generalizing m with
  | nil => exact hm
  | cons d ds ih =>
    rw [accumulate]
    split
    next h => exact ih h
    next => exact hm

/-- Digits that are left out only make the number greater. -/
theorem accumulate_mul_le {m : Nat} (cs : List Char) :
    (accumulate m (cs.map digit)).1 * 10 ^ (accumulate m (cs.map digit)).2.length ≤
      Nat.ofDigitChars 10 cs m := by
  induction cs generalizing m with
  | nil => simp [accumulate]
  | cons c cs ih =>
    rw [List.map_cons, accumulate]
    split
    next =>
      rw [Nat.ofDigitChars_cons, Nat.mul_comm 10 m]
      exact ih
    next =>
      rw [Nat.ofDigitChars_eq_ofDigitChars_zero, List.length_cons, List.length_map, List.length_cons,
        Nat.mul_comm m]
      exact Nat.le_add_right _ _

theorem length_accumulate_le {m : Nat} (ds : List Nat) : (accumulate m ds).2.length ≤ ds.length := by
  induction ds generalizing m with
  | nil => exact le_rfl
  | cons d ds ih =>
    rw [accumulate]
    split
    next => exact le_trans ih (Nat.le_succ _)
    next => exact le_rfl

/-! ## The value of a numeral with a point or a power -/

variable {negative down : Bool} {whole power : List Nat} {fraction : Option (List Nat)} {m : Nat}

/-- How many digits behind the point are taken. -/
def taken (m : Nat) (fraction : List Nat) : Nat := fraction.length - (accumulate m fraction).2.length

theorem value?_fraction {fraction : List Nat} (h : accumulate 0 whole = (m, [])) :
    (⟨negative, whole, some fraction, none⟩ : Numeral).value? =
      (scale negative (accumulate m fraction).1 (-(taken m fraction : Int))).map .float := by
  simp [value?, h, taken]

/-- A power of ten as it is taken: no further than the first that is too great. -/
def powerOf (ds : List Nat) : Nat := ds.foldl (fun p d => if p > maxPower then p else p * 10 + d) 0

theorem value?_power (h : accumulate 0 whole = (m, [])) :
    (⟨negative, whole, fraction, some (down, power)⟩ : Numeral).value? =
      if powerOf power > maxPower then
        if (accumulate m (fraction.getD [])).1 != 0 && !down then none else some (.float (.zero negative))
      else
        (scale negative (accumulate m (fraction.getD [])).1
          (if down then -(taken m (fraction.getD []) : Int) - powerOf power
            else -(taken m (fraction.getD []) : Int) + powerOf power)).map .float := by
  cases fraction with
  | none => simp [value?, h, taken, accumulate, powerOf]
  | some ds => simp [value?, h, taken, powerOf]

theorem maxNat_le_roomy : (maxNat : ℚ) ≤ roomy := by
  have hp : (2 : ℚ) ^ (12 : ℤ) ≤ 2 ^ (971 : ℤ) := zpow_le_zpow_right₀ (by norm_num) (by norm_num)
  calc (maxNat : ℚ) ≤ (2 ^ 53 - 5 / 2) * 2 ^ (12 : ℤ) := by norm_num [maxNat]
    _ ≤ roomy := mul_le_mul_of_nonneg_left hp (by norm_num)

/-- **Digits with no positive power can be read.** -/
theorem exists_scale_of_nonpos (negative : Bool) {m : Nat} {e : Int} (hm : m ≤ maxNat) (he : e ≤ 0) :
    ∃ x, scale negative m e = some x := by
  have hmq : (m : ℚ) ≤ roomy := le_trans (Nat.cast_le.2 hm) maxNat_le_roomy
  refine exists_scale negative hmq (le_trans ?_ hmq)
  exact mul_le_of_le_one_right (Nat.cast_nonneg _) (zpow_le_one_of_nonpos₀ (by norm_num) he)

theorem exists_value?_fraction (negative : Bool) (fraction : List Nat) (h : accumulate 0 whole = (m, [])) :
    ∃ x, (⟨negative, whole, some fraction, none⟩ : Numeral).value? = some (.float x) := by
  have hm : m ≤ maxNat := by
    have := accumulate_le (Nat.zero_le _) whole
    rwa [h] at this
  obtain ⟨x, hx⟩ := exists_scale_of_nonpos negative (accumulate_le hm fraction)
    (e := -(taken m fraction : Int)) (by omega)
  exact ⟨x, by rw [value?_fraction h, hx]; rfl⟩

/-- A power downwards. -/
theorem exists_value?_down (h : accumulate 0 whole = (m, [])) :
    ∃ x, (⟨negative, whole, fraction, some (true, power)⟩ : Numeral).value? = some (.float x) := by
  have hm : m ≤ maxNat := by
    have := accumulate_le (Nat.zero_le _) whole
    rwa [h] at this
  rw [value?_power h]
  split
  · exact ⟨.zero negative, by simp⟩
  · obtain ⟨x, hx⟩ := exists_scale_of_nonpos negative (accumulate_le hm (fraction.getD []))
      (e := -(taken m (fraction.getD []) : Int) - powerOf power) (by omega)
    exact ⟨x, by simp [hx]⟩

theorem powerOf_natChars {p : Nat} (h : p ≤ maxPower) : powerOf ((natChars p).map digit) = p := by
  have hfold : ∀ (cs : List Char) (m : Nat), Nat.ofDigitChars 10 cs m ≤ maxPower →
      (cs.map digit).foldl (fun p d => if p > maxPower then p else p * 10 + d) m =
        Nat.ofDigitChars 10 cs m := by
    intro cs
    induction cs with
    | nil => exact fun _ _ => rfl
    | cons c cs ih =>
      intro m hle
      have hm : m ≤ maxPower := le_trans (le_ofDigitChars (c :: cs) m) hle
      rw [List.map_cons, List.foldl_cons, if_neg (by omega)]
      rw [Nat.ofDigitChars_cons, Nat.mul_comm 10 m] at hle ⊢
      exact ih _ hle
  have hself : Nat.ofDigitChars 10 (natChars p) 0 = p := Nat.ofDigitChars_ten_toDigits
  have := hfold (natChars p) 0 (by rw [hself]; exact h)
  rwa [hself] at this

/-- A power upwards that stays below the greatest number. -/
theorem exists_value?_up {cs ds : List Char} {p : Nat}
    (h : accumulate 0 (cs.map digit) = (Nat.ofDigitChars 10 cs 0, []))
    (hp : p ≤ maxPower) (hf : fraction.getD [] = ds.map digit)
    (hle : (Nat.ofDigitChars 10 (cs ++ ds) 0 : ℚ) * 10 ^ ((p : ℤ) - ds.length) ≤ roomy) :
    ∃ x, (⟨negative, cs.map digit, fraction, some (false, (natChars p).map digit)⟩ : Numeral).value? =
      some (.float x) := by
  rw [value?_power h, powerOf_natChars hp, hf, if_neg (by omega)]
  rw [Nat.ofDigitChars_append] at hle
  generalize hm : Nat.ofDigitChars 10 cs 0 = m at h hle ⊢
  have hmle : m ≤ maxNat := by
    have := accumulate_le (Nat.zero_le _) (cs.map digit)
    rwa [h] at this
  have htaken : (taken m (ds.map digit) : ℤ) = ds.length - (accumulate m (ds.map digit)).2.length := by
    have := length_accumulate_le (m := m) (ds.map digit)
    rw [List.length_map] at this
    rw [taken, List.length_map]
    omega
  have hmq : ((accumulate m (ds.map digit)).1 : ℚ) ≤ roomy :=
    le_trans (Nat.cast_le.2 (accumulate_le hmle _)) maxNat_le_roomy
  have hscaled :
      ((accumulate m (ds.map digit)).1 : ℚ) * 10 ^ (-(taken m (ds.map digit) : ℤ) + p) ≤ roomy := by
    refine le_trans ?_ hle
    have hdigits : ((accumulate m (ds.map digit)).1 : ℚ) * 10 ^ (accumulate m (ds.map digit)).2.length ≤
        Nat.ofDigitChars 10 ds m := by exact_mod_cast accumulate_mul_le (m := m) ds
    have hexp : -(taken m (ds.map digit) : ℤ) + p =
        (accumulate m (ds.map digit)).2.length + ((p : ℤ) - ds.length) := by omega
    rw [hexp, zpow_add₀ (by norm_num), zpow_natCast, ← mul_assoc]
    exact mul_le_mul_of_nonneg_right hdigits (zpow_nonneg (by norm_num) _)
  obtain ⟨x, hx⟩ := exists_scale negative hmq hscaled
  exact ⟨x, by simp [hx]⟩

/-! ## Scanning what is written -/

variable {cs ds rest : List Char}

theorem digits_append_of_isDigit (hcs : ∀ c ∈ cs, c.isDigit = true)
    (hrest : ∀ c r, rest = c :: r → c.isDigit = false) : digits (cs ++ rest) = (cs.map digit, rest) := by
  have hstop : rest.takeWhile Char.isDigit = [] ∧ rest.dropWhile Char.isDigit = rest := by
    cases rest with
    | nil => exact ⟨rfl, rfl⟩
    | cons c r => simp [hrest c r rfl]
  rw [digits, List.takeWhile_append_of_pos hcs, List.dropWhile_append_of_pos hcs, hstop.1, hstop.2,
    List.append_nil]

/-- Digits that can stand in front of a point. -/
structure IsWhole (cs : List Char) : Prop where
  ne_nil : cs ≠ []
  digits : ∀ c ∈ cs, c.isDigit = true
  head : ∀ r, cs = '0' :: r → r = []

theorem scanWhole_append_of_isWhole (h : IsWhole cs) (hrest : ∀ c r, rest = c :: r → c.isDigit = false) :
    scanWhole (cs ++ rest) = some (cs.map digit, rest) := by
  rw [scanWhole, digits_append_of_isDigit h.digits hrest]
  cases cs with
  | nil => exact absurd rfl h.ne_nil
  | cons c cs =>
    split
    next he => cases (Prod.ext_iff.1 he).1
    next d ds r he =>
      obtain ⟨hc, hcs⟩ := List.cons.inj (Prod.ext_iff.1 he).1
      have hzero : c = '0' := digit_eq_zero (h.digits c List.mem_cons_self) hc
      rw [h.head cs (by rw [hzero])] at hcs
      cases hcs
    next => rfl

theorem scanFraction_point (hne : ds ≠ []) (hds : ∀ c ∈ ds, c.isDigit = true)
    (hrest : ∀ c r, rest = c :: r → c.isDigit = false) :
    scanFraction ('.' :: (ds ++ rest)) = some (some (ds.map digit), rest) := by
  rw [scanFraction, digits_append_of_isDigit hds hrest]
  cases ds with
  | nil => exact absurd rfl hne
  | cons d ds => rfl

/-- The sign of a power, and its digits. -/
def powerChars (down : Bool) (p : Nat) : List Char := (if down then '-' else '+') :: natChars p

theorem scanPower_powerChars (down : Bool) (p : Nat) :
    scanPower ('e' :: powerChars down p) = some (some (down, (natChars p).map digit), []) := by
  have hsign : scanSign (powerChars down p) = (down, natChars p) := by cases down <;> rfl
  have hdigits := digits_natChars p
  simp only [scanPower, beq_self_eq_true, Bool.true_or, if_true, hsign, hdigits]
  cases hd : natChars p with
  | nil => exact absurd hd Nat.toDigits_ne_nil
  | cons d ds => rfl

theorem scanUnsigned_point (negative : Bool) (hcs : IsWhole cs) (hne : ds ≠ [])
    (hds : ∀ c ∈ ds, c.isDigit = true) : scanUnsigned negative (cs ++ '.' :: ds) =
      some (⟨negative, cs.map digit, some (ds.map digit), none⟩, []) := by
  have hpoint : ∀ c r, '.' :: ds = c :: r → c.isDigit = false := by
    rintro c r he
    cases he
    decide
  have hfraction : scanFraction ('.' :: (ds ++ [])) = _ := scanFraction_point hne hds (by simp)
  rw [List.append_nil] at hfraction
  simp [scanUnsigned, scanWhole_append_of_isWhole hcs hpoint, hfraction, scanPower]

theorem scanUnsigned_point_power (negative down : Bool) (p : Nat) (hcs : IsWhole cs) (hne : ds ≠ [])
    (hds : ∀ c ∈ ds, c.isDigit = true) :
    scanUnsigned negative (cs ++ '.' :: (ds ++ 'e' :: powerChars down p)) =
      some (⟨negative, cs.map digit, some (ds.map digit), some (down, (natChars p).map digit)⟩, []) := by
  have hpoint : ∀ c r, '.' :: (ds ++ 'e' :: powerChars down p) = c :: r → c.isDigit = false := by
    rintro c r he
    cases he
    decide
  have hpower : ∀ c r, 'e' :: powerChars down p = c :: r → c.isDigit = false := by
    rintro c r he
    cases he
    decide
  simp [scanUnsigned, scanWhole_append_of_isWhole hcs hpoint, scanFraction_point hne hds hpower,
    scanPower_powerChars]

theorem scanUnsigned_power (negative down : Bool) (p : Nat) (hcs : IsWhole cs) :
    scanUnsigned negative (cs ++ 'e' :: powerChars down p) =
      some (⟨negative, cs.map digit, none, some (down, (natChars p).map digit)⟩, []) := by
  have hpower : ∀ c r, 'e' :: powerChars down p = c :: r → c.isDigit = false := by
    rintro c r he
    cases he
    decide
  simp [scanUnsigned, scanWhole_append_of_isWhole hcs hpower, scanFraction, scanPower_powerChars]

/-! ## Floating-point numbers as they are written -/

theorem digit_lt {c : Char} (h : c.isDigit = true) : digit c < 10 := by
  simp only [Char.isDigit, Bool.and_eq_true, decide_eq_true_eq] at h
  have h9 : c.toNat ≤ '9'.toNat := h.2
  have : '9'.toNat = '0'.toNat + 9 := rfl
  unfold digit
  omega

theorem ofDigitChars_lt (h : ∀ c ∈ cs, c.isDigit = true) : Nat.ofDigitChars 10 cs 0 < 10 ^ cs.length := by
  induction cs with
  | nil => exact Nat.one_pos
  | cons c cs ih =>
    have hc : digit c < 10 := digit_lt (h c List.mem_cons_self)
    have hcs := ih fun d hd => h d (List.mem_cons_of_mem c hd)
    rw [Nat.ofDigitChars_cons, Nat.ofDigitChars_eq_ofDigitChars_zero, List.length_cons, Nat.pow_succ]
    change 10 ^ cs.length * (10 * 0 + digit c) + _ < _
    nlinarith

/-- Few digits are taken as they are. -/
theorem accumulate_of_length_le (h : ∀ c ∈ cs, c.isDigit = true) (hlen : cs.length ≤ 16) :
    accumulate 0 (cs.map digit) = (Nat.ofDigitChars 10 cs 0, []) := by
  refine accumulate_digits 0 (Nat.le_of_lt (lt_of_lt_of_le (ofDigitChars_lt h) ?_))
  calc 10 ^ cs.length ≤ 10 ^ 16 := Nat.pow_le_pow_right (by decide) hlen
    _ ≤ maxNat := by decide

/-- Digits that start with none that is zero. -/
structure IsLeading (cs : List Char) : Prop where
  ne_nil : cs ≠ []
  digits : ∀ c ∈ cs, c.isDigit = true
  head : ∀ r, cs ≠ '0' :: r

theorem IsLeading.le_ofDigitChars (h : IsLeading cs) : 10 ^ (cs.length - 1) ≤ Nat.ofDigitChars 10 cs 0 := by
  cases cs with
  | nil => exact absurd rfl h.ne_nil
  | cons c cs =>
    have hc : digit c ≠ 0 := by
      intro hzero
      exact h.head cs (by rw [digit_eq_zero (h.digits c List.mem_cons_self) hzero])
    rw [Nat.ofDigitChars_cons, Nat.ofDigitChars_eq_ofDigitChars_zero, List.length_cons, Nat.add_sub_cancel]
    change 10 ^ cs.length ≤ 10 ^ cs.length * (10 * 0 + digit c) + _
    have hone : 1 ≤ 10 * 0 + digit c := by omega
    exact le_trans (Nat.le_mul_of_pos_right _ hone) (Nat.le_add_right _ _)

/-- A text that is read as a floating-point number, its sign apart. -/
def ReadsAsFloat (negative : Bool) (cs : List Char) : Prop :=
  ∃ n x, scanUnsigned negative cs = some (n, []) ∧ n.value? = some (.float x)

theorem readsAsFloat_point (negative : Bool) (hcs : IsWhole cs) (hlen : cs.length ≤ 16) (hne : ds ≠ [])
    (hds : ∀ c ∈ ds, c.isDigit = true) : ReadsAsFloat negative (cs ++ '.' :: ds) := by
  obtain ⟨x, hx⟩ := exists_value?_fraction negative (ds.map digit)
    (accumulate_of_length_le hcs.digits hlen)
  exact ⟨_, x, scanUnsigned_point negative hcs hne hds, hx⟩

theorem isWhole_take {k : Nat} (h : IsLeading cs) :
    IsWhole (cs.take (k + 1) ++ List.replicate (k + 1 - (cs.take (k + 1)).length) '0') where
  ne_nil := by
    cases cs with
    | nil => exact absurd rfl h.ne_nil
    | cons c cs => simp
  digits := by
    intro c hc
    rcases List.mem_append.1 hc with hc | hc
    · exact h.digits c (List.mem_of_mem_take hc)
    · rw [List.eq_of_mem_replicate hc]
      decide
  head := by
    intro r he
    cases cs with
    | nil => exact absurd rfl h.ne_nil
    | cons c cs =>
      obtain ⟨hc, -⟩ := List.cons.inj he
      exact absurd (by rw [hc]) (h.head cs)

/-- One digit, with the others behind a point if there are any, and a power of ten. -/
theorem exists_scanUnsigned_leading {c : Char} (negative down : Bool) (p : Nat) (h : IsLeading (c :: cs)) :
    ∃ fraction : Option (List Nat), fraction.getD [] = cs.map digit ∧
      scanUnsigned negative (match c :: cs with
        | [] => []
        | [d] => d :: 'e' :: powerChars down p
        | d :: rest => d :: '.' :: rest ++ 'e' :: powerChars down p) =
      some (⟨negative, [c].map digit, fraction, some (down, (natChars p).map digit)⟩, []) := by
  have hwhole : IsWhole [c] := ⟨by simp, by simpa using h.digits c List.mem_cons_self, by simp⟩
  cases cs with
  | nil => exact ⟨none, rfl, scanUnsigned_power negative down p hwhole⟩
  | cons d ds =>
    have hds : ∀ e ∈ d :: ds, e.isDigit = true := fun e he => h.digits e (List.mem_cons_of_mem c he)
    exact ⟨some ((d :: ds).map digit), rfl,
      scanUnsigned_point_power negative down p hwhole (List.cons_ne_nil d ds) hds⟩

theorem lt_of_le_roomy {k : Int} (h : IsLeading cs)
    (hle : (Nat.ofDigitChars 10 cs 0 : ℚ) * 10 ^ (k - (cs.length - 1 : Nat)) ≤ roomy) : k < 309 := by
  have hlead : (10 : ℚ) ^ (cs.length - 1) ≤ Nat.ofDigitChars 10 cs 0 := by exact_mod_cast h.le_ofDigitChars
  have hpow : (10 : ℚ) ^ k < 10 ^ ((309 : ℕ) : ℤ) := by
    calc (10 : ℚ) ^ k = 10 ^ (cs.length - 1) * 10 ^ (k - (cs.length - 1 : Nat)) := by
          rw [← zpow_natCast, ← zpow_add₀ (by norm_num)]
          congr 1
          omega
      _ ≤ Nat.ofDigitChars 10 cs 0 * 10 ^ (k - (cs.length - 1 : Nat)) :=
          mul_le_mul_of_nonneg_right hlead (zpow_nonneg (by norm_num) _)
      _ ≤ roomy := hle
      _ < 10 ^ ((309 : ℕ) : ℤ) := by
          rw [zpow_natCast]
          exact roomy_lt_ten_pow
  exact (zpow_lt_zpow_iff_right₀ (by norm_num)).1 hpow

theorem exists_value?_leading {c : Char} (negative : Bool) {k : Int} (h : IsLeading (c :: cs))
    (hf : fraction.getD [] = cs.map digit)
    (hle : (Nat.ofDigitChars 10 (c :: cs) 0 : ℚ) * 10 ^ (k - ((c :: cs).length - 1 : Nat)) ≤ roomy) :
    ∃ x, (⟨negative, [c].map digit, fraction,
      some (decide (k < 0), (natChars k.natAbs).map digit)⟩ : Numeral).value? = some (.float x) := by
  have hone : accumulate 0 ([c].map digit) = (Nat.ofDigitChars 10 [c] 0, []) :=
    accumulate_of_length_le (by simpa using h.digits c List.mem_cons_self) (by simp)
  by_cases hneg : k < 0
  · rw [decide_eq_true hneg]
    exact exists_value?_down hone
  · have hk := lt_of_le_roomy h hle
    have hpower : (k.natAbs : ℤ) = k := by omega
    rw [decide_eq_false hneg]
    refine exists_value?_up hone (by unfold maxPower; omega) hf ?_
    rw [hpower]
    exact hle

/-- **What is written of digits and a power is read as a number**, unless it is too great. -/
theorem readsAsFloat_scientific (negative : Bool) {k : Int} (h : IsLeading cs)
    (hle : (Nat.ofDigitChars 10 cs 0 : ℚ) * 10 ^ (k - (cs.length - 1 : Nat)) ≤ roomy) :
    ReadsAsFloat negative (scientific cs k) := by
  rw [scientific]
  split
  next hk =>
    simp only [Bool.and_eq_true, decide_eq_true_eq] at hk
    have hlen : (cs.take (k.toNat + 1) ++
        List.replicate (k.toNat + 1 - (cs.take (k.toNat + 1)).length) '0').length ≤ 16 := by
      rw [List.length_append, List.length_replicate, List.length_take]
      omega
    refine readsAsFloat_point negative (isWhole_take h) hlen ?_ ?_
    · split
      next hrest => simp
      next hrest => simpa using hrest
    · intro c hc
      split at hc
      · rw [List.mem_singleton.1 hc]
        decide
      · exact h.digits c (List.mem_of_mem_drop hc)
  next =>
    split
    next hk =>
      have hzero : IsWhole ['0'] := ⟨by simp, by simp, by simp⟩
      rw [List.cons_append, List.cons_append]
      refine readsAsFloat_point negative hzero (by decide) (by simp [h.ne_nil]) ?_
      intro c hc
      rcases List.mem_append.1 hc with hc | hc
      · rw [List.eq_of_mem_replicate hc]
        decide
      · exact h.digits c hc
    next hsmall hk =>
      cases cs with
      | nil => exact absurd rfl h.ne_nil
      | cons c cs =>
        have hsign : (if k < 0 then '-' else '+') :: natChars k.natAbs =
            powerChars (decide (k < 0)) k.natAbs := by simp [powerChars]
        obtain ⟨fraction, hf, hscan⟩ := exists_scanUnsigned_leading negative (decide (k < 0)) k.natAbs h
        obtain ⟨x, hx⟩ := exists_value?_leading negative h hf hle
        rw [← hsign] at hscan
        exact ⟨_, x, hscan, hx⟩

/-- The digits of `n` without the zeros at their end. -/
def stripped (n : Nat) : List Char := ((natChars n).reverse.dropWhile (· == '0')).reverse

theorem exists_natChars_eq (n : Nat) :
    ∃ zeros, natChars n = stripped n ++ List.replicate zeros '0' := by
  obtain ⟨zeros, hzeros⟩ : ∃ zeros, (natChars n).reverse.takeWhile (· == '0') = List.replicate zeros '0' :=
    ⟨_, List.eq_replicate_iff.2 ⟨rfl, fun c hc => by simpa using List.mem_takeWhile_imp hc⟩⟩
  refine ⟨zeros, ?_⟩
  calc natChars n
      = ((natChars n).reverse.takeWhile (· == '0') ++
          (natChars n).reverse.dropWhile (· == '0')).reverse := by
        rw [List.takeWhile_append_dropWhile, List.reverse_reverse]
    _ = stripped n ++ List.replicate zeros '0' := by
        rw [List.reverse_append, hzeros, List.reverse_replicate, stripped]

theorem isLeading_stripped {n : Nat} (hn : n ≠ 0) : IsLeading (stripped n) := by
  obtain ⟨zeros, hz⟩ := exists_natChars_eq n
  have hself : Nat.ofDigitChars 10 (natChars n) 0 = n := Nat.ofDigitChars_ten_toDigits
  refine ⟨fun hnil => hn ?_, fun c hc => ?_, fun r hr => ?_⟩
  · rw [hz, hnil, List.nil_append, Nat.ofDigitChars_replicate_zero, Nat.mul_zero] at hself
    exact hself.symm
  · exact isDigit_natChars (n := n) (by rw [hz]; exact List.mem_append_left _ hc)
  · refine head_toDigits (Nat.pos_of_ne_zero hn) (r ++ List.replicate zeros '0') ?_
    change natChars n = _
    rw [hz, hr]
    rfl

/-- The decimal that `stripped` digits write. -/
theorem stripped_value {n : Nat} (hn : n ≠ 0) (e : Int) :
    (Nat.ofDigitChars 10 (stripped n) 0 : ℚ) *
      10 ^ (e + (natChars n).length - 1 - ((stripped n).length - 1 : Nat)) = n * 10 ^ e := by
  obtain ⟨zeros, hz⟩ := exists_natChars_eq n
  have hself : Nat.ofDigitChars 10 (natChars n) 0 = n := Nat.ofDigitChars_ten_toDigits
  rw [hz, Nat.ofDigitChars_append, Nat.ofDigitChars_replicate_zero] at hself
  have hpos : 0 < (stripped n).length := List.length_pos_of_ne_nil (isLeading_stripped hn).ne_nil
  have hexp : e + (natChars n).length - 1 - ((stripped n).length - 1 : Nat) = zeros + e := by
    rw [hz, List.length_append, List.length_replicate]
    omega
  have hselfq : (n : ℚ) = 10 ^ zeros * Nat.ofDigitChars 10 (stripped n) 0 := by exact_mod_cast hself.symm
  rw [hexp, zpow_add₀ (by norm_num), zpow_natCast, hselfq]
  ring

/-- Two numbers below the greatest one by a step or less. -/
def nearTop : List Binary64 :=
  [⟨false, 2 ^ 53 - 1, 971⟩, ⟨true, 2 ^ 53 - 1, 971⟩, ⟨false, 2 ^ 53 - 2, 971⟩, ⟨true, 2 ^ 53 - 2, 971⟩]

/-- The number is written with room above it, or is one of the greatest. -/
theorem shortest_le_roomy {x : Binary64} (hx : x.IsFinite) (h0 : x.significand ≠ 0) :
    x ∈ nearTop ∨ x.shortest.value ≤ roomy := by
  have hle := (shortest_le hx h0).2
  have hm : x.significand < 2 ^ 53 := hx.significand
  have he : x.exponent ≤ 971 := hx.greatest
  have hp : (0 : ℚ) < 2 ^ (970 : ℤ) := zpow_pos (by norm_num) _
  have htop : roomy = (2 ^ 53 - 5 / 2) * 2 * 2 ^ (970 : ℤ) := by
    rw [roomy, show (971 : ℤ) = 1 + 970 by norm_num, zpow_add₀ (by norm_num), zpow_one, mul_assoc]
  rcases Int.lt_or_eq_of_le he with he | he
  · right
    have hmq : (x.significand : ℚ) ≤ 2 ^ 53 := by exact_mod_cast hm.le
    calc x.shortest.value ≤ (x.significand + 1 / 2) * 2 ^ x.exponent := hle
      _ ≤ (2 ^ 53 + 1 / 2) * 2 ^ (970 : ℤ) := by
        refine mul_le_mul (by linarith) (zpow_le_zpow_right₀ (by norm_num) (by omega))
          (zpow_nonneg (by norm_num) _) (by norm_num)
      _ ≤ roomy := by
        rw [htop]
        exact mul_le_mul_of_nonneg_right (by norm_num) hp.le
  · by_cases hlarge : x.significand ≤ 2 ^ 53 - 3
    · right
      have hmq : (x.significand : ℚ) ≤ 2 ^ 53 - 3 := by
        have : ((x.significand + 3 : ℕ) : ℚ) ≤ ((2 ^ 53 : ℕ) : ℚ) := Nat.cast_le.2 (by omega)
        push_cast at this
        linarith
      rw [he] at hle
      exact le_trans hle (mul_le_mul_of_nonneg_right (by linarith) (zpow_nonneg (by norm_num) _))
    · left
      obtain ⟨negative, m, e⟩ := x
      obtain rfl : e = 971 := he
      have hcases : m = 2 ^ 53 - 1 ∨ m = 2 ^ 53 - 2 := by
        change ¬ m ≤ _ at hlarge
        change m < _ at hm
        omega
      rcases hcases with rfl | rfl <;> cases negative <;> simp [nearTop]

/-- The floating-point number that a text is read as. -/
def readFloat? (cs : List Char) : Option Binary64 :=
  match scan cs with
  | some (n, []) =>
    match n.value? with
    | some (.float x) => some x
    | _ => none
  | _ => none

theorem readFloat?_eq_some {x : Binary64} :
    readFloat? cs = some x ↔ ∃ n, scan cs = some (n, []) ∧ n.value? = some (.float x) := by
  unfold readFloat?
  constructor
  · intro h
    split at h
    next n hn =>
      split at h
      next y hy =>
        obtain rfl := Option.some.inj h
        exact ⟨n, hn, hy⟩
      next => cases h
    next => cases h
  · rintro ⟨n, hn, hx⟩
    simp only [hn, hx]

theorem isSome_readFloat?_nearTop : ∀ x ∈ nearTop, (readFloat? (floatChars x)).isSome = true := by
  decide +kernel

/-- The sign of a number stands in front of it. -/
theorem scan_sign {negative : Bool} {c : Char} (hc : c.isDigit = true) :
    scan ((if negative then ['-'] else []) ++ c :: cs) = scanUnsigned negative (c :: cs) := by
  cases negative with
  | true => rfl
  | false =>
    have : c ≠ '-' := by
      rintro rfl
      exact absurd hc (by decide)
    simp [scan, this]

theorem head_scientific {k : Int} (h : IsLeading cs) :
    ∃ c r, scientific cs k = c :: r ∧ c.isDigit = true := by
  cases cs with
  | nil => exact absurd rfl h.ne_nil
  | cons c cs =>
    have hc : c.isDigit = true := h.digits c List.mem_cons_self
    rw [scientific]
    split
    next => exact ⟨c, _, rfl, hc⟩
    next =>
      split
      next => exact ⟨'0', _, rfl, rfl⟩
      next => cases cs <;> exact ⟨c, _, rfl, hc⟩

/-- **Whatever finite number is written, what is written is read as a number.** -/
theorem exists_readFloat? {x : Binary64} (hx : x.IsFinite) : ∃ y, readFloat? (floatChars x) = some y := by
  by_cases h0 : x.significand = 0
  · have hzero : x.isZero = true := by simp [Binary64.isZero, h0]
    have hchars : floatChars x = (if x.negative then ['-'] else []) ++ ['0', '.', '0'] := by
      simp [floatChars, hzero]
    rw [hchars]
    exact Option.isSome_iff_exists.1 (by cases x.negative <;> decide +kernel)
  · rcases shortest_le_roomy hx h0 with hmem | hle
    · exact Option.isSome_iff_exists.1 (isSome_readFloat?_nearTop x hmem)
    · have hd : x.shortest.digits ≠ 0 := (shortest_le hx h0).1
      have hzero : x.isZero = false := by simp [Binary64.isZero, h0]
      have hchars : floatChars x = (if x.negative then ['-'] else []) ++
          scientific (stripped x.shortest.digits)
            (x.shortest.exponent + (natChars x.shortest.digits).length - 1) := by
        simp [floatChars, hzero, stripped]
      rw [Decimal.value, ← stripped_value hd] at hle
      obtain ⟨n, y, hscan, hvalue⟩ := readsAsFloat_scientific x.negative (isLeading_stripped hd) hle
      obtain ⟨c, r, hcs, hc⟩ := head_scientific (isLeading_stripped hd)
        (k := x.shortest.exponent + (natChars x.shortest.digits).length - 1)
      rw [hcs] at hscan
      exact ⟨y, readFloat?_eq_some.2 ⟨n, by rw [hchars, hcs, scan_sign hc, hscan], hvalue⟩⟩

end Numeral

/-! ## Sound numbers -/

/-- **A number that a text can stand for**: an integer of 64 bits, or a floating-point number with its parts
within their bounds. -/
def Number.IsSound : Number → Prop
  | .int n => isInteger n = true
  | .float x => x.IsFinite

open Numeral

theorem Number.isSound_of_scale {negative : Bool} {m : Nat} {e : Int} {v : Number}
    (h : (scale negative m e).map .float = some v) : v.IsSound := by
  obtain ⟨x, hx, rfl⟩ := Option.map_eq_some_iff.1 h
  exact isFinite_scale hx

/-- **What is read is sound.** -/
theorem Numeral.isSound_of_value? {n : Numeral} {v : Number} (h : n.value? = some v) : v.IsSound := by
  have hm := accumulate_le (Nat.zero_le _) n.whole
  unfold value? at h
  generalize accumulate 0 n.whole = found at h hm
  obtain ⟨m, beyond⟩ := found
  have hle : (m : ℤ) ≤ maxNat := Int.ofNat_le.2 hm
  simp only at h
  split at h
  · obtain rfl := Option.some.inj h
    have hmin : Number.minInt ≤ m := by
      unfold Number.minInt
      omega
    simp [IsSound, isInteger, hle, hmin]
  split at h
  next hneg =>
    obtain rfl := Option.some.inj h
    simp only [Bool.and_eq_true, decide_eq_true_eq] at hneg
    have hmax : -(m : ℤ) ≤ maxNat := by
      unfold maxNat
      omega
    simpa [IsSound, isInteger, hmax] using hneg.2
  · -- all else is scaled, or is none or zero for too great a power
    repeat' split at h
    all_goals first
      | exact isSound_of_scale h
      | cases h
    all_goals exact isFinite_zero _

/-- The number that is read where a floating-point number is written. -/
def Binary64.reread (x : Binary64) : Binary64 := (readFloat? (floatChars x)).getD x

/-- **A sound number is read as a number of its kind**, an integer as itself. -/
theorem Number.readsAs_reread {n : Number} (h : n.IsSound) : n.ReadsAs (n.mapFloat Binary64.reread) := by
  cases n with
  | int n => exact readsBack_int h
  | float x =>
    obtain ⟨y, hy⟩ := exists_readFloat? h
    rw [mapFloat, Binary64.reread, hy]
    exact readFloat?_eq_some.1 hy

theorem Number.isSound_reread {n : Number} (h : n.IsSound) : (n.mapFloat Binary64.reread).IsSound := by
  obtain ⟨m, -, hm⟩ := readsAs_reread h
  exact isSound_of_value? hm

end TableAccess
