import Mathlib.Data.List.Infix
import Mathlib.Data.String.Basic
import TableAccess.Text.AsciiCase

/-!
# The bytes of texts

The bytes of a smaller character and those of a greater one part at a place that both have, and there the
bytes of the smaller one are smaller. So texts are ordered as their bytes are, and one text starts with
another exactly if its bytes do. Each byte of a character beyond ASCII is at least 128, which folding leaves
as it is, so folding the bytes of a text gives the bytes of the folded text.

* `before_utf8EncodeChar`: where the bytes of two characters part.
* `compare_bytes`: **comparing the bytes of texts is comparing the texts.** `flatMap_prefix_iff`: the same of
  starts.
* `bytes_fold`: **a text may be folded byte by byte.** `agree_iff`: so bytes agree exactly if the folded bytes
  are the same.
-/

namespace TableAccess

/-! ## Lists -/

/-- Behind beginnings of one length, lists are compared only where the beginnings are the same. -/
theorem compare_append {a b : List UInt8} (h : a.length = b.length) (x y : List UInt8) :
    compare (a ++ x) (b ++ y) = (compare a b).then (compare x y) := by
  simp only [List.compare_eq_compareLex]
  induction a generalizing b with
  | nil =>
    obtain rfl := List.eq_nil_of_length_eq_zero h.symm
    rfl
  | cons c a ih =>
    cases b with
    | nil => cases h
    | cons d b =>
      rw [List.cons_append, List.cons_append, List.compareLex_cons_cons, List.compareLex_cons_cons,
        ih (Nat.succ.inj h), Ordering.then_assoc]

/-- Lists are of one length and have the same images place by place exactly if their images are the same. -/
theorem pointwise_iff {α β : Type} [BEq β] [LawfulBEq β] {f : α → β} {l m : List α} :
    (l.length == m.length && (l.zip m).all fun p => f p.1 == f p.2) = true ↔ l.map f = m.map f := by
  induction l generalizing m with
  | nil => cases m <;> simp
  | cons a l ih =>
    cases m with
    | nil => simp
    | cons b m =>
      rw [List.map_cons, List.map_cons, List.cons.injEq, ← ih]
      simp only [List.length_cons, List.zip_cons_cons, List.all_cons, Bool.and_eq_true, beq_iff_eq,
        Nat.add_right_cancel_iff]
      exact and_left_comm

namespace Text

open String (utf8EncodeChar)

/-! ## Where bytes part -/

/-- Bytes part at a place that both have, and there the first ones are smaller. -/
inductive Before : List UInt8 → List UInt8 → Prop
  | here {a b : UInt8} {l m : List UInt8} : a < b → Before (a :: l) (b :: m)
  | later {a : UInt8} {l m : List UInt8} : Before l m → Before (a :: l) (a :: m)

namespace Before

variable {l m : List UInt8}

/-- What comes behind makes no difference. -/
theorem append (h : Before l m) (x y : List UInt8) : Before (l ++ x) (m ++ y) := by
  induction h with
  | here hab => exact .here hab
  | later _ ih => exact .later ih

theorem compare_eq_lt (h : Before l m) : compare l m = .lt := by
  rw [List.compare_eq_compareLex]
  induction h with
  | here hab =>
    rw [List.compareLex_cons_cons, Std.compare_eq_lt.2 hab]
    rfl
  | later _ ih =>
    rw [List.compareLex_cons_cons, Std.ReflOrd.compare_self, ih]
    rfl

/-- Neither bytes are the start of the others. -/
theorem not_starts (h : Before l m) : ¬ l <+: m ∧ ¬ m <+: l := by
  induction h with
  | here hab =>
    have hne := UInt8.ne_of_lt hab
    simp only [List.cons_prefix_cons, not_and]
    exact ⟨fun h => absurd h hne, fun h => absurd h.symm hne⟩
  | later _ ih => simpa only [List.cons_prefix_cons, true_and] using ih

theorem not_nil : ¬ Before [] m := nofun

theorem cons_ofNat_iff {a b : Nat} (ha : a < 256) (hb : b < 256) :
    Before (.ofNat a :: l) (.ofNat b :: m) ↔ a < b ∨ a = b ∧ Before l m := by
  have hlt : UInt8.ofNat a < UInt8.ofNat b ↔ a < b := by
    rw [UInt8.lt_iff_toNat_lt, UInt8.toNat_ofNat_of_lt' ha, UInt8.toNat_ofNat_of_lt' hb]
  have heq : UInt8.ofNat a = UInt8.ofNat b ↔ a = b := by
    rw [← UInt8.toNat_inj, UInt8.toNat_ofNat_of_lt' ha, UInt8.toNat_ofNat_of_lt' hb]
  rw [← hlt, ← heq]
  constructor
  · intro h
    generalize UInt8.ofNat a = x, UInt8.ofNat b = y at h
    cases h with
    | here h => exact .inl h
    | later h => exact .inr ⟨rfl, h⟩
  · rintro (h | ⟨h, hlm⟩)
    · exact .here h
    · rw [h]
      exact .later hlm

end Before

/-- **The bytes of a smaller character are smaller** where they part from those of a greater one. -/
theorem before_utf8EncodeChar {c d : Char} (h : c < d) : Before (utf8EncodeChar c) (utf8EncodeChar d) := by
  have hcd : c.val.toNat < d.val.toNat := h
  have hd : d.val.toNat < 0x110000 := by
    rcases d.valid with hd | hd
    · exact hd.trans (by decide)
    · exact hd.2
  -- the digits to the base 64 are taken off one after the other
  have hdiv : ∀ n, n / 4096 = n / 64 / 64 ∧ n / 262144 = n / 64 / 64 / 64 := fun n => by
    rw [Nat.div_div_eq_div_mul, Nat.div_div_eq_div_mul]
    exact ⟨rfl, rfl⟩
  unfold utf8EncodeChar
  generalize c.val.toNat = v at hcd ⊢
  generalize d.val.toNat = w at hcd hd ⊢
  simp only [hdiv]
  -- of characters with as many bytes the first digits that differ decide, of others the first byte
  split_ifs <;> simp (disch := omega) only [Before.cons_ofNat_iff, Before.not_nil] <;> omega

/-! ## The order of texts -/

variable {s t : String}

theorem bytes_eq_flatMap (s : String) : bytes s = s.toList.flatMap utf8EncodeChar := by
  rw [bytes, ← String.utf8Encode_toList, List.utf8Encode]
  simp

theorem bytes_injective (h : bytes s = bytes t) : s = t :=
  String.toByteArray_inj.1 (ByteArray.ext (Array.toList_inj.1 h))

theorem compare_flatMap_of_lt {l m : List Char} (h : l < m) :
    compare (l.flatMap utf8EncodeChar) (m.flatMap utf8EncodeChar) = .lt := by
  have hlex : List.Lex (· < ·) l m := h
  induction hlex with
  | @nil d m =>
    obtain ⟨b, rest, hbytes⟩ := List.exists_cons_of_ne_nil (String.utf8EncodeChar_ne_nil (c := d))
    rw [List.flatMap_cons, hbytes]
    rfl
  | @cons c l m hlm ih =>
    rw [List.flatMap_cons, List.flatMap_cons, compare_append rfl, ih hlm, Std.ReflOrd.compare_self]
    rfl
  | rel hcd => exact ((before_utf8EncodeChar hcd).append _ _).compare_eq_lt

/-- **Comparing the bytes of texts is comparing the texts**, character by character. -/
theorem compare_bytes (s t : String) : compare (bytes s) (bytes t) = compare s t := by
  have hlt : ∀ {s t : String}, s < t → compare (bytes s) (bytes t) = .lt := by
    intro s t h
    rw [bytes_eq_flatMap, bytes_eq_flatMap]
    exact compare_flatMap_of_lt (String.lt_iff_toList_lt.1 h)
  rcases lt_trichotomy s t with h | rfl | h
  · rw [hlt h, compare_lt_iff_lt.2 h]
  · rw [Std.ReflOrd.compare_self, Std.ReflOrd.compare_self]
  · rw [Std.OrientedCmp.gt_of_lt (hlt h), compare_gt_iff_gt.2 h]

/-- **A text starts with another exactly if its bytes do.** -/
theorem flatMap_prefix_iff {l m : List Char} :
    l.flatMap utf8EncodeChar <+: m.flatMap utf8EncodeChar ↔ l <+: m := by
  induction l generalizing m with
  | nil => simp
  | cons c l ih =>
    cases m with
    | nil => simp
    | cons d m =>
      rw [List.flatMap_cons, List.flatMap_cons, List.cons_prefix_cons]
      -- where the first characters differ, their bytes part
      rcases lt_trichotomy c d with h | rfl | h
      · have hpart := (before_utf8EncodeChar h).append (l.flatMap utf8EncodeChar) (m.flatMap utf8EncodeChar)
        exact iff_of_false hpart.not_starts.1 fun hcons => h.ne hcons.1
      · rw [List.prefix_append_right_inj, ih]
        exact (and_iff_right rfl).symm
      · have hpart := (before_utf8EncodeChar h).append (m.flatMap utf8EncodeChar) (l.flatMap utf8EncodeChar)
        exact iff_of_false hpart.not_starts.2 fun hcons => h.ne' hcons.1

/-! ## Folding bytes -/

theorem toAsciiLower_of_le {b : UInt8} (h : 128 ≤ b) : b.toAsciiLower = b := by
  have hb : 128 ≤ b.toNat := UInt8.le_iff_toNat_le.1 h
  have h65 : (65 : UInt8) ≤ b := UInt8.le_iff_toNat_le.2 (Nat.le_trans (by decide) hb)
  have hcapital : ¬ b - 65 < 26 := by
    rw [UInt8.lt_iff_toNat_lt, UInt8.toNat_sub_of_le _ _ h65]
    show ¬ b.toNat - 65 < 26
    omega
  rw [UInt8.toAsciiLower, decide_eq_false hcapital]
  exact UInt8.add_zero b

/-- Each byte of a character beyond ASCII is at least 128. -/
theorem le_of_mem_utf8EncodeChar {c : Char} (hc : 128 ≤ c.toNat) {b : UInt8} (hb : b ∈ utf8EncodeChar c) :
    128 ≤ b := by
  have hle : ∀ n, 128 ≤ n → n < 256 → 128 ≤ UInt8.ofNat n := fun n hn hn' => by
    rw [UInt8.le_iff_toNat_le, UInt8.toNat_ofNat_of_lt' hn']
    exact hn
  rw [← Char.toNat_val] at hc
  unfold utf8EncodeChar at hb
  generalize c.val.toNat = v at hb hc
  dsimp only at hb
  split_ifs at hb <;> simp only [List.mem_cons, List.not_mem_nil, or_false] at hb
  · omega
  · rcases hb with rfl | rfl <;> exact hle _ (by omega) (by omega)
  · rcases hb with rfl | rfl | rfl <;> exact hle _ (by omega) (by omega)
  · rcases hb with rfl | rfl | rfl | rfl <;> exact hle _ (by omega) (by omega)

theorem utf8EncodeChar_toLower (c : Char) :
    utf8EncodeChar c.toLower = (utf8EncodeChar c).map UInt8.toAsciiLower := by
  by_cases hc : c.toNat < 128
  · have hascii : ∀ n : Fin 128, utf8EncodeChar (Char.ofNat n).toLower =
        (utf8EncodeChar (Char.ofNat n)).map UInt8.toAsciiLower := by
      decide
    have h := hascii ⟨c.toNat, hc⟩
    rwa [Char.ofNat_toNat] at h
  · have hcapital : ¬ (c.val ≥ 'A'.val ∧ c.val ≤ 'Z'.val) := fun h =>
      hc ((UInt32.le_iff_toNat_le.1 h.2).trans_lt (by decide))
    have hsame : c.toLower = c := dif_neg hcapital
    rw [hsame, List.map_congr_left fun b hb =>
      toAsciiLower_of_le (le_of_mem_utf8EncodeChar (Nat.le_of_not_lt hc) hb)]
    exact (List.map_id _).symm

/-- **A text may be folded byte by byte.** -/
theorem bytes_fold (s : String) : bytes (fold s) = (bytes s).map UInt8.toAsciiLower := by
  rw [bytes_eq_flatMap, bytes_eq_flatMap, fold, String.toList_ofList, List.flatMap_map, List.map_flatMap]
  simp only [utf8EncodeChar_toLower]

/-- Bytes agree exactly if the folded bytes are the same. -/
theorem agree_iff {a b : List UInt8} :
    agree a b = true ↔ a.map UInt8.toAsciiLower = b.map UInt8.toAsciiLower :=
  pointwise_iff

end Text

end TableAccess
