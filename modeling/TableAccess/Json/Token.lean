import TableAccess.Json.Number

/-!
# JSON tokens

`Token.scan` takes the token at the front of a text. A string may hold escapes; half of a
surrogate pair leaves a string that is well formed but stands for no text.

* `scan_length`: a token is at least one character long.
-/

namespace TableAccess

/-- A piece of JSON text. -/
inductive Token where
  | openArray
  | closeArray
  | openObject
  | closeObject
  | comma
  | colon
  | null
  | bool (b : Bool)
  /-- A number, none when it is out of range. -/
  | number (n : Option Number)
  /-- A string, none when it has half of a surrogate pair. -/
  | string (s : Option String)
deriving DecidableEq, Repr

namespace Token

/-- Whether `c` may stand between tokens. -/
def isSpace (c : Char) : Bool := c == ' ' || c == '\t' || c == '\n' || c == '\r'

/-- The value of a digit in base 16. -/
def hexDigit? (c : Char) : Option Nat :=
  if c.isDigit then some (c.toNat - '0'.toNat)
  else if 'a' ≤ c && c ≤ 'f' then some (c.toNat - 'a'.toNat + 10)
  else if 'A' ≤ c && c ≤ 'F' then some (c.toNat - 'A'.toNat + 10)
  else none

/-- The value of four digits in base 16. -/
def hexUnit? (a b c d : Char) : Option Nat := do
  return (((← hexDigit? a) * 16 + (← hexDigit? b)) * 16 + (← hexDigit? c)) * 16 + (← hexDigit? d)

/-- The character that a backslash and `c` stand for. -/
def shortEscape? (c : Char) : Option Char :=
  match c with
  | '"' => some '"'
  | '\\' => some '\\'
  | '/' => some '/'
  | 'b' => some '\x08'
  | 'f' => some '\x0c'
  | 'n' => some '\n'
  | 'r' => some '\r'
  | 't' => some '\t'
  | _ => none

/-- A part of a string: a character, or a surrogate given by its escape. -/
inductive Piece where
  | char (c : Char)
  | surrogate (n : Nat)
deriving DecidableEq, Repr

/-- The piece that an escaped unit of 16 bits stands for. -/
def Piece.ofUnit (n : Nat) : Piece :=
  if 0xd800 ≤ n && n < 0xe000 then .surrogate n else .char (Char.ofNat n)

/-- The pieces of a string behind its opening quote, added in reverse to `acc`, and what follows
the closing quote; none when the string does not end or has a control character or bad escape. -/
def scanPieces (acc : List Piece) : List Char → Option (List Piece × List Char)
  | [] => none
  | '"' :: rest => some (acc, rest)
  | '\\' :: 'u' :: a :: b :: c :: d :: rest =>
    match hexUnit? a b c d with
    | some n => scanPieces (Piece.ofUnit n :: acc) rest
    | none => none
  | '\\' :: c :: rest =>
    match shortEscape? c with
    | some c' => scanPieces (.char c' :: acc) rest
    | none => none
  | c :: rest => if c == '\\' || c.toNat < 0x20 then none else scanPieces (.char c :: acc) rest

/-- The characters of pieces in reverse order, put in front of `acc`: a high and a low surrogate
make one character, and any other surrogate makes none of it readable. -/
def joinPieces (acc : List Char) : List Piece → Option (List Char)
  | [] => some acc
  | .char c :: rest => joinPieces (c :: acc) rest
  | .surrogate low :: .surrogate high :: rest =>
    if 0xdc00 ≤ low && high < 0xdc00 then
      joinPieces (Char.ofNat (0x10000 + (high - 0xd800) * 0x400 + (low - 0xdc00)) :: acc) rest
    else none
  | .surrogate _ :: _ => none

/-- What follows `word` in `cs`, where `cs` starts with it. -/
def after? : (word cs : List Char) → Option (List Char)
  | [], cs => some cs
  | w :: word, c :: cs => if w == c then after? word cs else none
  | _ :: _, [] => none

/-- The token that starts with `c`, and what follows it in `cs`. -/
def scan (c : Char) (cs : List Char) : Option (Token × List Char) :=
  match c with
  | '[' => some (.openArray, cs)
  | ']' => some (.closeArray, cs)
  | '\x7b' => some (.openObject, cs)
  | '\x7d' => some (.closeObject, cs)
  | ',' => some (.comma, cs)
  | ':' => some (.colon, cs)
  | '"' => (scanPieces [] cs).map fun r => (.string ((joinPieces [] r.1).map String.ofList), r.2)
  | 'n' => (after? ['u', 'l', 'l'] cs).map fun rest => (.null, rest)
  | 't' => (after? ['r', 'u', 'e'] cs).map fun rest => (.bool true, rest)
  | 'f' => (after? ['a', 'l', 's', 'e'] cs).map fun rest => (.bool false, rest)
  | c => (Numeral.scan (c :: cs)).map fun r => (.number r.1.value?, r.2)

/-! ## Tokens are not empty -/

theorem length_scanPieces {acc : List Piece} {cs : List Char} {r : List Piece × List Char}
    (h : scanPieces acc cs = some r) : r.2.length < cs.length := by
  fun_induction scanPieces acc cs with
  | case2 => obtain rfl := Option.some.inj h; exact Nat.lt_succ_self _
  | case3 _ _ _ _ _ _ _ _ ih => have := ih h; simp only [List.length_cons]; omega
  | case5 _ _ _ _ _ _ ih => have := ih h; simp only [List.length_cons]; omega
  | case8 _ _ _ _ _ _ _ ih => have := ih h; simp only [List.length_cons]; omega
  | _ => cases h

theorem length_after? {word cs rest : List Char} (h : after? word cs = some rest) :
    rest.length ≤ cs.length := by
  fun_induction after? word cs <;> simp_all
  omega

theorem length_digits (cs : List Char) :
    (Numeral.digits cs).1.length + (Numeral.digits cs).2.length = cs.length := by
  simp only [Numeral.digits, List.length_map]
  rw [← List.length_append, List.takeWhile_append_dropWhile]

theorem length_scanWhole {cs : List Char} {r : List Nat × List Char}
    (h : Numeral.scanWhole cs = some r) : r.2.length < cs.length := by
  have hl := length_digits cs
  unfold Numeral.scanWhole at h
  split at h
  · cases h
  · cases h
  next hne _ =>
    obtain rfl := Option.some.inj h
    have : (Numeral.digits cs).1 ≠ [] := fun he => hne _ (Prod.ext he rfl)
    have := List.length_pos_iff.2 this
    omega

theorem length_scanFraction {cs : List Char} {r : Option (List Nat) × List Char}
    (h : Numeral.scanFraction cs = some r) : r.2.length ≤ cs.length := by
  unfold Numeral.scanFraction at h
  split at h
  next cs =>
    have hl := length_digits cs
    split at h
    · cases h
    next ds rest _ he =>
      obtain rfl := Option.some.inj h
      rw [he] at hl
      simp only [List.length_cons] at hl ⊢
      omega
  · obtain rfl := Option.some.inj h
    exact Nat.le_refl _

theorem length_scanSign (cs : List Char) : (Numeral.scanSign cs).2.length ≤ cs.length := by
  unfold Numeral.scanSign
  split <;> simp

theorem length_scanPower {cs : List Char} {r : Option (Bool × List Nat) × List Char}
    (h : Numeral.scanPower cs = some r) : r.2.length ≤ cs.length := by
  unfold Numeral.scanPower at h
  split at h
  · obtain rfl := Option.some.inj h
    exact Nat.le_refl _
  next c cs =>
    have hl := length_digits (Numeral.scanSign cs).2
    have hs := length_scanSign cs
    split at h
    · split at h
      · cases h
      next ds rest _ he =>
        obtain rfl := Option.some.inj h
        rw [he] at hl
        simp only [List.length_cons] at hl ⊢
        omega
    · obtain rfl := Option.some.inj h
      exact Nat.le_refl _

theorem length_scanUnsigned {neg : Bool} {cs : List Char} {r : Numeral × List Char}
    (h : Numeral.scanUnsigned neg cs = some r) : r.2.length < cs.length := by
  simp only [Numeral.scanUnsigned, Option.bind_eq_bind, Option.bind_eq_some_iff, Option.pure_def,
    Option.some.injEq] at h
  obtain ⟨w, hw, f, hf, p, hp, rfl⟩ := h
  have := length_scanWhole hw
  have := length_scanFraction hf
  have := length_scanPower hp
  simp only
  omega

theorem length_scanNumeral {cs : List Char} {r : Numeral × List Char}
    (h : Numeral.scan cs = some r) : r.2.length < cs.length := by
  unfold Numeral.scan at h
  split at h
  · have := length_scanUnsigned h
    simp only [List.length_cons]
    omega
  · exact length_scanUnsigned h

theorem scan_length {c : Char} {cs : List Char} {r : Token × List Char}
    (h : scan c cs = some r) : r.2.length < cs.length + 1 := by
  unfold scan at h
  split at h
  all_goals first
    | (obtain rfl := Option.some.inj h; exact Nat.lt_succ_self _)
    | skip
  · obtain ⟨p, hp, rfl⟩ := Option.map_eq_some_iff.1 h
    exact Nat.lt_succ_of_lt (length_scanPieces hp)
  · obtain ⟨p, hp, rfl⟩ := Option.map_eq_some_iff.1 h
    exact Nat.lt_succ_of_le (length_after? hp)
  · obtain ⟨p, hp, rfl⟩ := Option.map_eq_some_iff.1 h
    exact Nat.lt_succ_of_le (length_after? hp)
  · obtain ⟨p, hp, rfl⟩ := Option.map_eq_some_iff.1 h
    exact Nat.lt_succ_of_le (length_after? hp)
  · obtain ⟨p, hp, rfl⟩ := Option.map_eq_some_iff.1 h
    exact length_scanNumeral hp

end Token

end TableAccess
