import TableAccess.Json.Parser
import TableAccess.Json.Printer
import TableAccess.Proofs.Json.Numeral

/-!
# Reading a written value

Reading the text of a value gives the value again as a document, cut off where it is nested too
deeply for a text. Only its floating-point numbers may come out as others, if they are written as numerals
that stand for these; numbers that read back (`Number.ReadsBack`) do not.

* `scan_string`: the token of a written string is the string.
* `run_chars`: reading a written value inside open arrays and objects puts it there.
* `ofText_text_of_readAs`: **reading the text of a value gives the value with the numbers that are read**, up
  to the greatest depth.
* `ofText_text`: a value whose numbers read back comes out as it is.
-/

namespace TableAccess

/-! ## Strings -/

namespace Token

theorem hexUnit_hexPair {n : Nat} (h : n < 0x20) :
    hexUnit? '0' '0' (Nat.digitChar (n / 16)) (Nat.digitChar (n % 16)) = some n := by
  interval_cases n <;> rfl

theorem ofUnit_toNat {c : Char} (h : c.toNat < 0x20) : Piece.ofUnit c.toNat = .char c := by
  have : ¬ 0xd800 ≤ c.toNat := by omega
  simp [Piece.ofUnit, this]

/-- A character stands in a string as itself. -/
theorem scanPieces_escape (acc : List Piece) (c : Char) (rest : List Char) :
    scanPieces acc (Json.escape c ++ rest) = scanPieces (.char c :: acc) rest := by
  unfold Json.escape
  split
  all_goals try rfl
  -- the characters with an escape of their own are done
  next h1 h2 h3 h4 h5 h6 h7 =>
    split
    next hc =>
      simp only [Json.hexPair, List.cons_append, List.nil_append]
      rw [scanPieces, hexUnit_hexPair hc]
      simp only [ofUnit_toNat hc]
    next hc =>
      rw [List.singleton_append, scanPieces.eq_def]
      split <;> simp_all

theorem scanPieces_escapes (acc : List Piece) (cs rest : List Char) :
    scanPieces acc (cs.flatMap Json.escape ++ '"' :: rest) =
      some ((cs.map .char).reverse ++ acc, rest) := by
  induction cs generalizing acc with
  | nil => rw [List.flatMap_nil, List.nil_append, scanPieces]; rfl
  | cons c cs ih =>
    rw [List.flatMap_cons, List.append_assoc, scanPieces_escape, ih]
    simp

theorem joinPieces_chars (acc cs : List Char) :
    joinPieces acc (cs.map .char).reverse = some (cs ++ acc) := by
  have h : ∀ (l acc : List Char), joinPieces acc (l.map .char) = some (l.reverse ++ acc) := by
    intro l
    induction l with
    | nil => intro acc; rfl
    | cons c l ih => intro acc; simp [joinPieces, ih]
  rw [← List.map_reverse, h, List.reverse_reverse]

/-- **The token of a written string is the string.** -/
theorem scan_string (s : String) (rest : List Char) :
    scan '"' (s.toList.flatMap Json.escape ++ '"' :: rest) = some (.string (some s), rest) := by
  simp [scan, scanPieces_escapes, joinPieces_chars]

/-- The token of a numeral is the number that it stands for. -/
theorem scan_number {c : Char} {cs : List Char} {r : Numeral × List Char}
    (h : Numeral.scan (c :: cs) = some r) : scan c cs = some (.number r.1.value?, r.2) := by
  have hd := Numeral.head_of_scan h
  unfold scan
  split
  all_goals first | (exact absurd hd (by decide)) | skip
  rw [h, Option.map_some]

theorem isSpace_of_scan {c : Char} {cs : List Char} {r : Token × List Char}
    (h : scan c cs = some r) : isSpace c = false := by
  by_contra hs
  rw [Bool.not_eq_false] at hs
  simp only [isSpace, Bool.or_eq_true, beq_iff_eq] at hs
  rcases hs with ((rfl | rfl) | rfl) | rfl <;>
    simp [scan, Numeral.scan, Numeral.scanUnsigned, Numeral.scanWhole, Numeral.digits] at h

end Token

/-! ## Numbers in values and documents -/

namespace Json

mutual

/-- The numbers in a value. -/
def numbers : Json → List Number
  | .num n => [n]
  | .arr items => numbersOfItems items
  | .obj entries => numbersOfEntries entries
  | _ => []

/-- The numbers in a list of values. -/
def numbersOfItems : List Json → List Number
  | [] => []
  | j :: rest => numbers j ++ numbersOfItems rest

/-- The numbers in the values of entries. -/
def numbersOfEntries : List (String × Json) → List Number
  | [] => []
  | (_, j) :: rest => numbers j ++ numbersOfEntries rest

end

/-- All numbers in the value have the property `N`. -/
def AllNumbers (N : Number → Prop) (j : Json) : Prop := ∀ n ∈ j.numbers, N n

/-- **All numbers in the value read back.** -/
def NumbersReadBack (j : Json) : Prop := ∀ n ∈ j.numbers, n.ReadsBack

end Json

/-- The number with `f` applied to it, if it is no integer. -/
def Number.mapFloat (f : Binary64 → Binary64) : Number → Number
  | .int n => .int n
  | .float x => .float (f x)

@[simp] theorem Number.mapFloat_id (n : Number) : n.mapFloat id = n := by
  cases n <;> rfl

namespace Json

variable (f : Binary64 → Binary64)

mutual

/-- The value with `f` applied to its floating-point numbers. -/
def mapFloats : Json → Json
  | .num n => .num (n.mapFloat f)
  | .arr items => .arr (mapFloatsOfItems items)
  | .obj entries => .obj (mapFloatsOfEntries entries)
  | j => j

/-- Values with `f` applied to their floating-point numbers. -/
def mapFloatsOfItems : List Json → List Json
  | [] => []
  | j :: rest => mapFloats j :: mapFloatsOfItems rest

/-- Entries with `f` applied to the floating-point numbers in their values. -/
def mapFloatsOfEntries : List (String × Json) → List (String × Json)
  | [] => []
  | (k, j) :: rest => (k, mapFloats j) :: mapFloatsOfEntries rest

end

theorem mapFloatsOfItems_eq_map (items : List Json) : mapFloatsOfItems f items = items.map (mapFloats f) := by
  induction items with
  | nil => rfl
  | cons j rest ih => rw [mapFloatsOfItems, ih, List.map_cons]

theorem mapFloatsOfEntries_eq_map (entries : List (String × Json)) :
    mapFloatsOfEntries f entries = entries.map fun e => (e.1, mapFloats f e.2) := by
  induction entries with
  | nil => rfl
  | cons e rest ih => rw [mapFloatsOfEntries, ih, List.map_cons]

mutual

@[simp] theorem mapFloats_id : (j : Json) → j.mapFloats id = j
  | .null | .bool _ | .str _ => rfl
  | .num n => by rw [mapFloats, Number.mapFloat_id]
  | .arr items => by rw [mapFloats, mapFloatsOfItems_id items]
  | .obj entries => by rw [mapFloats, mapFloatsOfEntries_id entries]

theorem mapFloatsOfItems_id : (items : List Json) → mapFloatsOfItems id items = items
  | [] => rfl
  | j :: rest => by rw [mapFloatsOfItems, mapFloats_id j, mapFloatsOfItems_id rest]

theorem mapFloatsOfEntries_id : (entries : List (String × Json)) → mapFloatsOfEntries id entries = entries
  | [] => rfl
  | (k, j) :: rest => by rw [mapFloatsOfEntries, mapFloats_id j, mapFloatsOfEntries_id rest]

end

/-- All floating-point numbers in the value are read as what `f` makes of them, and the integers as they
are. -/
def NumbersReadAs (j : Json) : Prop := ∀ n ∈ j.numbers, n.ReadsAs (n.mapFloat f)

theorem numbersReadAs_id {j : Json} : j.NumbersReadAs id ↔ j.NumbersReadBack := by
  simp only [NumbersReadAs, Number.mapFloat_id]
  rfl

end Json

/-! ## Values -/

namespace Progress

open Document

theorem run_step {p p' : Progress} {c : Char} {cs rest : List Char} {t : Token}
    (ht : Token.scan c cs = some (t, rest)) (hp : ∀ d, p ≠ .done d) (h : p.step t = some p') :
    p.run (c :: cs) = p'.run rest := by
  rw [run, Token.isSpace_of_scan ht]
  · simp only [Bool.false_eq_true, if_false]
    split
    next he => rw [ht] at he; cases he
    next r he =>
      rw [ht] at he
      obtain rfl := Option.some.inj he
      rw [h]
  · exact hp

/-- A token that is a single character. -/
theorem run_mark {p p' : Progress} {c : Char} {rest : List Char} {t : Token}
    (ht : ∀ cs, Token.scan c cs = some (t, cs)) (hp : ∀ d, p ≠ .done d) (h : p.step t = some p') :
    p.run (c :: rest) = p'.run rest :=
  run_step (ht rest) hp h

theorem run_scalar {c : Char} {cs rest : List Char} {t : Token} {d : Document} (open_ : List Frame)
    (fresh : Bool) (ht : Token.scan c cs = some (t, rest)) (h : scalar? t = some d) :
    (Progress.value open_ fresh).run (c :: cs) = (push d open_).run rest := by
  refine run_step ht (fun d he => by cases he) ?_
  cases t <;> first | (simp [step, h]; done) | cases h

theorem run_number {n : Number} {m : Numeral} {d : Document} {rest : List Char} (open_ : List Frame)
    (fresh : Bool) (hr : Numeral.Stops rest) (hs : Numeral.scan n.chars = some (m, []))
    (h : scalar? (.number m.value?) = some d) :
    (Progress.value open_ fresh).run (n.chars ++ rest) = (push d open_).run rest := by
  cases hc : n.chars with
  | nil => rw [hc] at hs; cases hs
  | cons c cs =>
    rw [hc] at hs
    exact run_scalar open_ fresh (Token.scan_number (Numeral.scan_append hr hs)) h

/-- **A written string is read as the key of an entry.** -/
theorem run_key (before : List (Option String × Document)) (open_ : List Frame) (fresh : Bool)
    (k : String) (rest : List Char) :
    (Progress.key before open_ fresh).run (Json.stringChars k ++ rest) =
      (Progress.colon before (some k) open_).run rest := by
  simp only [Json.stringChars, List.cons_append, List.append_assoc, List.nil_append]
  exact run_step (Token.scan_string k rest) (fun d he => by cases he) rfl

/-- Entries whose keys could all be taken. -/
def keyed (l : List (String × Document)) : List (Option String × Document) :=
  l.map fun e => (some e.1, e.2)

theorem readable_keyed (l : List (String × Document)) : readable none (keyed l) = (l, none) := by
  induction l with
  | nil => rfl
  | cons e l ih =>
    show readable none ((some e.1, e.2) :: keyed l) = _
    simp [readable, ih]

theorem object_keyed (before : List (String × Document)) :
    object (keyed before) none = .obj before.reverse none := by
  rw [object, keyed, ← List.map_reverse]
  exact congrArg (fun r => Document.obj r.1 r.2) (readable_keyed before.reverse)

theorem stops_moreItemChars (items : List Json) (rest : List Char) :
    Numeral.Stops (Json.moreItemChars items ++ rest) := by
  cases items with
  | nil => exact Numeral.stops_cons (by simp)
  | cons j items => exact Numeral.stops_cons (by simp)

theorem stops_moreEntryChars (entries : List (String × Json)) (rest : List Char) :
    Numeral.Stops (Json.moreEntryChars entries ++ rest) := by
  cases entries with
  | nil => exact Numeral.stops_cons (by simp)
  | cons e entries => exact Numeral.stops_cons (by simp)

variable {f : Binary64 → Binary64}

mutual

/-- **Reading a written value puts it into the arrays and objects open around it**, with the numbers that
are read. -/
theorem run_chars (open_ : List Frame) (fresh : Bool) {rest : List Char} (hr : Numeral.Stops rest) :
    (j : Json) → j.NumbersReadAs f →
      (Progress.value open_ fresh).run (j.chars ++ rest) = (push (ofJson (j.mapFloats f)) open_).run rest
  | .null, _ => run_scalar open_ fresh rfl rfl
  | .bool true, _ => run_scalar open_ fresh rfl rfl
  | .bool false, _ => run_scalar open_ fresh rfl rfl
  | .num n, h => by
    obtain ⟨m, hs, hv⟩ := h n List.mem_cons_self
    exact run_number open_ fresh hr hs (by rw [hv]; rfl)
  | .str s, _ => by
    simp only [Json.chars, Json.stringChars, List.cons_append, List.append_assoc, List.nil_append]
    exact run_scalar open_ fresh (Token.scan_string s rest) rfl
  | .arr items, h => by
    rw [Json.chars, List.cons_append,
      run_mark (t := .openArray) (fun _ => rfl) (fun d he => by cases he) rfl]
    exact run_itemChars open_ rest items h
  | .obj entries, h => by
    rw [Json.chars, List.cons_append,
      run_mark (t := .openObject) (fun _ => rfl) (fun d he => by cases he) rfl]
    exact run_entryChars open_ rest entries h

theorem run_itemChars (open_ : List Frame) (rest : List Char) :
    (items : List Json) → (∀ n ∈ Json.numbersOfItems items, n.ReadsAs (n.mapFloat f)) →
      (Progress.value (.arr [] :: open_) true).run (Json.itemChars items ++ rest) =
        (push (.arr (ofItems (Json.mapFloatsOfItems f items))) open_).run rest
  | [], _ => run_mark (t := .closeArray) (fun _ => rfl) (fun d he => by cases he) rfl
  | j :: items, h => by
    rw [Json.numbersOfItems, List.forall_mem_append] at h
    rw [Json.itemChars, List.append_assoc, run_chars _ _ (stops_moreItemChars items rest) j h.1]
    exact run_moreItemChars [ofJson (j.mapFloats f)] open_ rest items h.2

theorem run_moreItemChars (before : List Document) (open_ : List Frame) (rest : List Char) :
    (items : List Json) → (∀ n ∈ Json.numbersOfItems items, n.ReadsAs (n.mapFloat f)) →
      (Progress.item before open_).run (Json.moreItemChars items ++ rest) =
        (push (.arr (before.reverse ++ ofItems (Json.mapFloatsOfItems f items))) open_).run rest
  | [], _ => by
    rw [Json.mapFloatsOfItems, ofItems, List.append_nil]
    exact run_mark (t := .closeArray) (fun _ => rfl) (fun d he => by cases he) rfl
  | j :: items, h => by
    rw [Json.numbersOfItems, List.forall_mem_append] at h
    simp only [Json.moreItemChars, List.cons_append, List.append_assoc]
    rw [run_mark (t := .comma) (fun _ => rfl) (fun d he => by cases he) rfl,
      run_chars _ _ (stops_moreItemChars items rest) j h.1]
    have ih := run_moreItemChars (ofJson (j.mapFloats f) :: before) open_ rest items h.2
    rw [List.reverse_cons, List.append_assoc] at ih
    exact ih

theorem run_entryChars (open_ : List Frame) (rest : List Char) :
    (entries : List (String × Json)) → (∀ n ∈ Json.numbersOfEntries entries, n.ReadsAs (n.mapFloat f)) →
      (Progress.key [] open_ true).run (Json.entryChars entries ++ rest) =
        (push (.obj (ofEntries (Json.mapFloatsOfEntries f entries)) none) open_).run rest
  | [], _ => run_mark (t := .closeObject) (fun _ => rfl) (fun d he => by cases he) rfl
  | (k, j) :: entries, h => by
    rw [Json.numbersOfEntries, List.forall_mem_append] at h
    simp only [Json.entryChars, List.cons_append, List.append_assoc]
    rw [run_key, run_mark (t := .colon) (fun _ => rfl) (fun d he => by cases he) rfl,
      run_chars _ _ (stops_moreEntryChars entries rest) j h.1]
    exact run_moreEntryChars [(k, ofJson (j.mapFloats f))] open_ rest entries h.2

theorem run_moreEntryChars (before : List (String × Document)) (open_ : List Frame)
    (rest : List Char) :
    (entries : List (String × Json)) → (∀ n ∈ Json.numbersOfEntries entries, n.ReadsAs (n.mapFloat f)) →
      (Progress.entry (keyed before) open_).run (Json.moreEntryChars entries ++ rest) =
        (push (.obj (before.reverse ++ ofEntries (Json.mapFloatsOfEntries f entries)) none) open_).run rest
  | [], _ => by
    rw [Json.mapFloatsOfEntries, ofEntries, List.append_nil, ← object_keyed]
    exact run_mark (t := .closeObject) (fun _ => rfl) (fun d he => by cases he) rfl
  | (k, j) :: entries, h => by
    rw [Json.numbersOfEntries, List.forall_mem_append] at h
    simp only [Json.moreEntryChars, List.cons_append, List.append_assoc]
    rw [run_mark (t := .comma) (fun _ => rfl) (fun d he => by cases he) rfl, run_key,
      run_mark (t := .colon) (fun _ => rfl) (fun d he => by cases he) rfl,
      run_chars _ _ (stops_moreEntryChars entries rest) j h.1]
    have ih := run_moreEntryChars ((k, ofJson (j.mapFloats f)) :: before) open_ rest entries h.2
    rw [List.reverse_cons, List.append_assoc] at ih
    exact ih

end

end Progress

/-- **Reading the text of a value gives the value with the numbers that are read**, cut off where it is
nested too deeply. -/
theorem Document.ofText_text_of_readAs {f : Binary64 → Binary64} {j : Json} (h : j.NumbersReadAs f) :
    Document.ofText j.text = ((Document.ofJson (j.mapFloats f)).limit Document.maxDepth, false) := by
  have hr := Progress.run_chars [] false Numeral.stops_nil j h
  rw [List.append_nil] at hr
  simp [ofText, ofChars, Json.text, hr, Progress.push, Progress.run, Progress.abandon]

/-- **Reading the text of a value gives the value**, cut off where it is nested too deeply. -/
theorem Document.ofText_text {j : Json} (h : j.NumbersReadBack) :
    Document.ofText j.text = ((Document.ofJson j).limit Document.maxDepth, false) := by
  have hr := ofText_text_of_readAs (Json.numbersReadAs_id.2 h)
  rwa [Json.mapFloats_id] at hr

/-- A natural number beyond 64 bits does not come back as an integer. -/
theorem Document.ofText_beyond {f : Binary64 → Binary64} {k : String} {n : Nat}
    {entries : List (String × Json)} (hn : Number.maxNat < n)
    (h : ∀ m ∈ Json.numbersOfEntries entries, m.ReadsAs (m.mapFloat f)) :
    ∃ d, (d = .flaw .unreadable ∨ ∃ x, d = .num (.float x)) ∧
      Document.ofText (Json.obj ((k, .nat n) :: entries)).text =
        ((Document.obj ((k, d) :: ofEntries (Json.mapFloatsOfEntries f entries)) none).limit maxDepth,
          false) := by
  open Progress in
  obtain ⟨d, hd, hs⟩ : ∃ d, (d = .flaw .unreadable ∨ ∃ x, d = .num (.float x)) ∧
      Progress.scalar? (.number (⟨false, (Number.natChars n).map Numeral.digit, none, none⟩ : Numeral).value?) =
        some d := by
    cases hv : (⟨false, (Number.natChars n).map Numeral.digit, none, none⟩ : Numeral).value? with
    | none => exact ⟨_, .inl rfl, rfl⟩
    | some v =>
      cases v with
      | int m => exact absurd hv (Numeral.value?_natChars_ne_int hn m)
      | float x => exact ⟨_, .inr ⟨x, rfl⟩, rfl⟩
  refine ⟨d, hd, ?_⟩
  have hrun : (Progress.value [] false).run (Json.obj ((k, .nat n) :: entries)).chars =
      (Progress.push (.obj ((k, d) :: ofEntries (Json.mapFloatsOfEntries f entries)) none) []).run [] := by
    rw [Json.chars, run_mark (t := .openObject) (fun _ => rfl) (fun d he => by cases he) rfl]
    simp only [Json.entryChars, List.cons_append, List.append_assoc]
    rw [run_key, run_mark (t := .colon) (fun _ => rfl) (fun d he => by cases he) rfl]
    have hr := stops_moreEntryChars entries []
    rw [List.append_nil] at hr
    have hnum := run_number (n := .int n) [.obj [] (some k)] false hr (Numeral.scan_natChars n) hs
    have hmore := run_moreEntryChars [(k, d)] [] [] entries h
    rw [List.append_nil] at hmore
    exact hnum.trans hmore
  simp [ofText, ofChars, Json.text, hrun, Progress.push, Progress.run, Progress.abandon]

end TableAccess
