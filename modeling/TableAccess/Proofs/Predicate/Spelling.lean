import TableAccess.Proofs.Accord
import TableAccess.Proofs.Predicate.Alike
import TableAccess.Proofs.Text.Numeral

/-!
# How integers are written

A literal that an integer column is compared with may be a number or its text. Where the number has 64 bits
with a sign, it makes no difference which of them stands there; a greater one is only taken as a number.

* `ColumnType.fits_integer_text`: **which texts of integers fit an integer column.**
* `Predicate.spelled`: a document with the integers that integer fields are compared with written as texts.
* `Predicate.compile_spelled`: **how integers are written makes no difference**: both documents compile and
  use the same, or none does.
-/

namespace TableAccess

namespace Json

/-- An integer of 64 bits with a sign as its text; any other value as it is. -/
def spelled : Json → Json
  | .num (.int n) => if Number.minInt ≤ n ∧ n ≤ Number.maxInt then .str (Number.int n).text else .num (.int n)
  | v => v

end Json

/-- A text that starts with a sign or with a digit refers to no session variable. -/
theorem SessionVariable.isReference_of_head {c : Char} {cs : List Char} (h : c = '-' ∨ c.isDigit = true) :
    isReference (String.ofList (c :: cs)) = false := by
  have hlower : c.toLower ≠ 'x' := by
    rcases h with rfl | h
    · decide
    · simp only [Char.isDigit, Bool.and_eq_true, decide_eq_true_eq] at h
      have hsame : c.toLower = c :=
        dif_neg fun hupper => absurd (UInt32.le_trans hupper.1 h.2) (by decide)
      rw [hsame]
      rintro rfl
      exact absurd h.2 (by decide)
  rw [isReference, String.toList_ofList]
  refine beq_eq_false_iff_ne.2 fun he => hlower ?_
  exact (List.cons.inj he).1

theorem SessionVariable.ofReference?_text (n : Int) : ofReference? (Number.int n).text = none := by
  have hhead : ∃ c cs, Number.intChars n = c :: cs ∧ (c = '-' ∨ c.isDigit = true) := by
    cases n with
    | ofNat n =>
      cases hcs : Number.natChars n with
      | nil => exact absurd hcs Nat.toDigits_ne_nil
      | cons c cs =>
        exact ⟨c, cs, hcs, .inr (Numeral.isDigit_natChars (n := n) (hcs ▸ List.mem_cons_self))⟩
    | negSucc n => exact ⟨'-', _, rfl, .inl rfl⟩
  obtain ⟨c, cs, hcs, hc⟩ := hhead
  rw [ofReference?, Number.text, Number.chars, hcs, isReference_of_head hc]
  rfl

namespace ColumnType

theorem fits_integer_int (n : Int) : fits .integer (.num (.int n)) = true := rfl

/-- **The text of an integer fits an integer column** exactly if it has 64 bits with a sign. -/
theorem fits_integer_text (n : Int) :
    fits .integer (.str (Number.int n).text) = true ↔ Number.minInt ≤ n ∧ n ≤ Number.maxInt :=
  Text.isInteger_text n

theorem fits_integer_spelled (v : Json) : fits .integer v.spelled = fits .integer v := by
  unfold Json.spelled
  split
  next n =>
    split
    next h => rw [(fits_integer_text n).2 h, fits_integer_int]
    next => rfl
  next => rfl

end ColumnType

theorem Json.reference?_spelled (v : Json) : v.spelled.reference? = v.reference? := by
  unfold spelled
  split
  next n =>
    split
    next => exact SessionVariable.ofReference?_text n
    next => rfl
  next => rfl

namespace Predicate

variable {σ : Schema} {source table : String}

/-! ## Comparisons -/

/-- A literal or a list of literals with the integers written as texts. -/
def spelledLiterals : Json → Json
  | .arr items => .arr (items.map Json.spelled)
  | v => v.spelled

/-- An operand with its integers written as texts, unless it is the name of a column. -/
def spelledOperand (op : Operator) (v : Json) : Json := if op.comparesColumns then v else spelledLiterals v

/-- An entry of an object of operators with its integers written as texts. -/
def spelledComparison (entry : String × Json) : String × Json :=
  match Operator.ofKey? entry.1 with
  | some op => (entry.1, spelledOperand op entry.2)
  | none => entry

/-- What an integer field is compared with, its integers written as texts. -/
def spelledOperators : Json → Json
  | .obj entries => .obj (entries.map spelledComparison)
  | v => v

/-- What a field of type `t` is compared with: integers are written as texts if it is an integer. -/
def spelledField (t : ColumnType) (v : Json) : Json := if t = .integer then spelledOperators v else v

/-- The scalars are literals, or the same session variable. -/
def SameScalar (s s' : Scalar) : Prop := session? s' = session? s

theorem scalar_spelled (v : Json) : Accord SameScalar (scalar .integer v) (scalar .integer v.spelled) := by
  rw [scalar_eq, scalar_eq, Json.reference?_spelled, ColumnType.fits_integer_spelled]
  cases v.reference? with
  | some x => exact .ok rfl
  | none =>
    simp only [Option.elim_none]
    split
    next => exact .ok rfl
    next => exact .error

theorem scalars_spelled (items : List Json) :
    Accord (List.Forall₂ SameScalar) (scalars .integer items) (scalars .integer (items.map Json.spelled)) :=
  .mapM_map items fun v _ => scalar_spelled v

/-- The operands name the same column, or hold the same session variables. -/
structure SameOperand (o o' : Operand) : Prop where
  column? : o'.column? = o.column?
  sessions : o'.scalars.map session? = o.scalars.map session?

theorem sameOperand_list {ss ss' : List Scalar} (h : List.Forall₂ SameScalar ss ss') :
    SameOperand (.list ss) (.list ss') where
  column? := rfl
  sessions := by
    show ss'.map session? = ss.map session?
    induction h with
    | nil => rfl
    | cons hs _ ih => rw [List.map_cons, List.map_cons, hs, ih]

theorem sameOperand_scalar {s s' : Scalar} (h : SameScalar s s') : SameOperand (.scalar s) (.scalar s') :=
  ⟨rfl, congrArg (fun x => [x]) h⟩

theorem scalar_spelledLiterals (v : Json) :
    Accord SameScalar (scalar .integer v) (scalar .integer (spelledLiterals v)) := by
  cases v with
  | arr items => exact .error
  | _ => exact scalar_spelled _

theorem spelledLiterals_cases (v : Json) : spelledLiterals v = v ∨
    (∃ items, v = .arr items ∧ spelledLiterals v = .arr (items.map Json.spelled)) ∨
      ∃ n, v = .num (.int n) ∧ spelledLiterals v = .str (Number.int n).text := by
  cases v with
  | arr items => exact .inr (.inl ⟨items, rfl, rfl⟩)
  | num n =>
    cases n with
    | int n =>
      simp only [spelledLiterals, Json.spelled]
      split
      next => exact .inr (.inr ⟨n, rfl, rfl⟩)
      next => exact .inl rfl
    | float x => exact .inl rfl
  | _ => exact .inl rfl

theorem operand_spelled (op : Operator) (v : Json) :
    Accord SameOperand (operand σ table .integer op v) (operand σ table .integer op (spelledOperand op v)) := by
  have hsame : ∀ o : Operand, SameOperand o o := fun _ => ⟨rfl, rfl⟩
  unfold spelledOperand
  split
  next => exact .refl hsame _
  next hcolumns =>
    rcases op.form with hop | rfl | hop | hop
    · exact absurd hop hcolumns
    · rcases spelledLiterals_cases v with h | ⟨items, rfl, h⟩ | ⟨n, rfl, h⟩
      · rw [h]
        exact .refl hsame _
      · exact .error
      · rw [h]
        exact .error
    · rw [operand_of_takesList hop, operand_of_takesList hop]
      rcases spelledLiterals_cases v with h | ⟨items, rfl, h⟩ | ⟨n, rfl, h⟩
      · rw [h]
        exact .refl hsame _
      · exact (scalars_spelled items).map fun _ _ => sameOperand_list
      · -- the text of an integer is no list either, and no session variable that would stand for one
        rw [h]
        simp only [Json.reference?, SessionVariable.ofReference?_text]
        exact .error
    · rw [operand_of_takesValue hop, operand_of_takesValue hop]
      split
      next => exact .error
      next => exact (scalar_spelledLiterals v).map fun _ _ => sameOperand_scalar

theorem comparison_spelled (entry : String × Json) : Accord AlikeComparison
    (comparison σ table .integer entry) (comparison σ table .integer (spelledComparison entry)) := by
  obtain ⟨key, v⟩ := entry
  unfold spelledComparison
  cases hop : Operator.ofKey? key with
  | none => exact .refl (fun _ => ⟨rfl, rfl, rfl⟩) _
  | some op =>
    simp only [comparison, hop]
    exact ((operand_spelled op v).within key key).map fun _ _ ho => ⟨rfl, ho.column?, ho.sessions⟩

/-- **How integers are written makes no difference to the comparisons of an integer field.** -/
theorem comparisons_spelled (v : Json) : Accord (List.Forall₂ AlikeComparison)
    (comparisons σ table .integer v) (comparisons σ table .integer (spelledOperators v)) := by
  cases v with
  | obj entries =>
    exact .mapM_map entries fun entry _ => comparison_spelled entry
  | _ => exact .error

theorem comparisons_spelledField (t : ColumnType) (v : Json) : Accord (List.Forall₂ AlikeComparison)
    (comparisons σ table t v) (comparisons σ table t (spelledField t v)) := by
  unfold spelledField
  split
  next h =>
    rw [h]
    exact comparisons_spelled v
  next => exact .refl (fun _ => List.forall₂_same.2 fun _ _ => ⟨rfl, rfl, rfl⟩) _

/-! ## Documents -/

mutual

/-- **A document with integers written as texts** where they are compared with integer fields. -/
def spelled (σ : Schema) : (table : String) → Json → Json
  | table, .obj entries => .obj (spelledEntries σ table entries)
  | _, doc => doc

/-- The entries of a document with integers written as texts. -/
def spelledEntries (σ : Schema) : (table : String) → List (String × Json) → List (String × Json)
  | _, [] => []
  | table, (key, v) :: rest =>
    (key,
      if key == "_and" || key == "_or" then spelledList σ table v
      else if key == "_not" then spelled σ table v
      else
        match σ.member? table key with
        | some (.column t) => spelledField t v
        | some (.relationship r) => spelled σ r.remoteTable v
        | some (.computedField (.scalar t)) => spelledField t v
        | _ => v) :: spelledEntries σ table rest

/-- An array of documents with integers written as texts. -/
def spelledList (σ : Schema) : (table : String) → Json → Json
  | table, .arr items => .arr (spelledItems σ table items)
  | _, doc => doc

/-- Documents for the same table with integers written as texts. -/
def spelledItems (σ : Schema) : (table : String) → List Json → List Json
  | _, [] => []
  | table, doc :: rest => spelled σ table doc :: spelledItems σ table rest

end

/-- The document under a key with integers written as texts. -/
def spelledEntry (σ : Schema) (table key : String) (v : Json) : Json :=
  if key == "_and" || key == "_or" then spelledList σ table v
  else if key == "_not" then spelled σ table v
  else
    match σ.member? table key with
    | some (.column t) => spelledField t v
    | some (.relationship r) => spelled σ r.remoteTable v
    | some (.computedField (.scalar t)) => spelledField t v
    | _ => v

theorem spelledEntries_cons (key : String) (v : Json) (rest : List (String × Json)) :
    spelledEntries σ table ((key, v) :: rest) =
      (key, spelledEntry σ table key v) :: spelledEntries σ table rest := by
  rw [spelledEntries]
  rfl

theorem spelledEntry_of_member {key : String} (h : key ∉ connectives) (v : Json) :
    spelledEntry σ table key v =
      match σ.member? table key with
      | some (.column t) => spelledField t v
      | some (.relationship r) => spelled σ r.remoteTable v
      | some (.computedField (.scalar t)) => spelledField t v
      | _ => v := by
  simp only [connectives, List.mem_cons, List.not_mem_nil, or_false, not_or] at h
  rw [spelledEntry, if_neg (by simp [h.1, h.2.1]), if_neg (by simpa using h.2.2)]

/-- The predicates use the same. -/
def SameUses (p q : CompiledPredicate) : Prop := q.uses = p.uses

theorem usesOf_sameUses {ps qs : List CompiledPredicate} (h : List.Forall₂ SameUses ps qs) :
    usesOf qs = usesOf ps := by
  refine usesOf_congr ?_
  induction h with
  | nil => rfl
  | cons hp _ ih => rw [List.map_cons, List.map_cons, hp, ih]

variable {v : Json}

/-- What stands under a key is in accord if the documents in it are, wherever they stand. -/
theorem compileEntry_spelled (table key : String)
    (hv : ∀ table, Accord SameUses (compile σ source table v) (compile σ source table (spelled σ table v)))
    (hlist : ∀ table, Accord (List.Forall₂ SameUses) (compileList σ source table v)
      (compileList σ source table (spelledList σ table v))) :
    Accord SameUses (compileEntry σ source table key v)
      (compileEntry σ source table key (spelledEntry σ table key v)) := by
  by_cases hkey : key ∈ connectives
  · simp only [connectives, List.mem_cons, List.not_mem_nil, or_false] at hkey
    rcases hkey with rfl | rfl | rfl
    · exact (hlist table).map fun _ _ => usesOf_sameUses
    · exact (hlist table).map fun _ _ => usesOf_sameUses
    · exact (hv table).map fun _ _ => id
  · rw [spelledEntry_of_member hkey, compileEntry_of_member hkey, compileEntry_of_member hkey]
    cases hm : σ.member? table key with
    | none => exact .error
    | some m =>
      cases m with
      | column t => exact (comparisons_spelledField t v).bind fun _ _ h => .ok (fieldUses_alike h _ _ _)
      | relationship r =>
        exact (hv r.remoteTable).map fun _ _ h => congrArg (relationshipUses source table key r ++ ·) h
      | computedField returns =>
        cases returns with
        | scalar t => exact (comparisons_spelledField t v).bind fun _ _ h => .ok (fieldUses_alike h _ _ _)
        | rows remote => exact .error

mutual

/-- **How integers are written makes no difference** to whether a document compiles, nor to what it uses. -/
theorem compile_spelled : (doc : Json) → ∀ table : String,
    Accord SameUses (compile σ source table doc) (compile σ source table (spelled σ table doc))
  | .obj entries, table => by
    rw [spelled, compile, compile]
    exact (compileEntries_spelled entries table).map fun _ _ => usesOf_sameUses
  | .null, _ | .bool _, _ | .num _, _ | .str _, _ | .arr _, _ => .error

theorem compileEntries_spelled : (entries : List (String × Json)) → ∀ table : String,
    Accord (List.Forall₂ SameUses) (compileEntries σ source table entries)
      (compileEntries σ source table (spelledEntries σ table entries))
  | [], _ => .ok .nil
  | (key, v) :: rest, table => by
    rw [spelledEntries_cons]
    have hentry := compileEntry_spelled table key (compile_spelled v) (compileList_spelled v)
    exact (hentry.within key key).bind fun _ _ hp => (compileEntries_spelled rest table).bind fun _ _ hps =>
      .ok (.cons hp hps)

theorem compileList_spelled : (doc : Json) → ∀ table : String,
    Accord (List.Forall₂ SameUses) (compileList σ source table doc)
      (compileList σ source table (spelledList σ table doc))
  | .arr items, table => by
    rw [spelledList, compileList, compileList]
    exact compileItems_spelled items table
  | .null, _ | .bool _, _ | .num _, _ | .str _, _ | .obj _, _ => .error

theorem compileItems_spelled : (items : List Json) → ∀ table : String,
    Accord (List.Forall₂ SameUses) (compileItems σ source table items)
      (compileItems σ source table (spelledItems σ table items))
  | [], _ => .ok .nil
  | doc :: rest, table => by
    rw [spelledItems, compileItems, compileItems]
    exact (compile_spelled doc table).bind fun _ _ hp => (compileItems_spelled rest table).bind fun _ _ hps =>
      .ok (.cons hp hps)

end

end Predicate

end TableAccess
