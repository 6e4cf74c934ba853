import TableAccess.Proofs.Predicate.Derivation

/-!
# Which predicates compile

Whether a document compiles can be told from the document and the schema alone. A document is *well formed*
at a table if it is an object whose entries are: a connective with documents that are well formed at the same
table, a relationship with one that is well formed at its remote table, or a column or a scalar computed
field with operators whose operands fit its type. What comes out is *typed*: each of its nodes has the names,
types and remote tables that the schema gives at the table where the node stands.

* `ColumnType.Holds`, `Predicate.IsValue`, `Predicate.OperandFits`: literals, values and operands that suit
  the type of a field.
* `Predicate.WellFormed`: documents. `exists_compiles_iff`: **a document compiles exactly if it is well
  formed.**
* `Expr.Typed`: predicates. `Compiles.typed`: **what compiles is typed.**
* `Predicate.compile_wellFormed`: both, of the compiler.
-/

namespace TableAccess

/-! ## Values and operands -/

/-- **A literal of a type.** Null is of every type and every literal is of the type of JSON; integers and
numbers may be written as strings. -/
inductive ColumnType.Holds : ColumnType → Json → Prop
  | null (t : ColumnType) : Holds t .null
  | json (v : Json) : Holds .json v
  | integer (n : Int) : Holds .integer (.num (.int n))
  | integerText {s : String} : Text.isInteger s = true → Holds .integer (.str s)
  | numeric (n : Number) : Holds .numeric (.num n)
  | numericText {s : String} : Text.isFiniteNumber s = true → Holds .numeric (.str s)
  | boolean (b : Bool) : Holds .boolean (.bool b)
  | text (s : String) : Holds .text (.str s)
  | uuid (s : String) : Holds .uuid (.str s)
  | timestamp (s : String) : Holds .timestamp (.str s)

theorem ColumnType.fits_iff {t : ColumnType} {v : Json} : t.fits v = true ↔ t.Holds v := by
  constructor
  · intro h
    unfold fits at h
    split at h
    · exact .null t
    · exact .json v
    · exact .integer _
    · exact .integerText h
    · exact .numeric _
    · exact .numericText h
    · exact .boolean _
    · exact .text _
    · exact .uuid _
    · exact .timestamp _
    · cases h
  · intro h
    cases h with
    | null => cases t <;> rfl
    | json => cases v <;> rfl
    | integerText h => exact h
    | numericText h => exact h
    | _ => rfl

namespace Operator

/-- The operators whose operand is another column. -/
def ofColumns : List Operator := [columnEq, columnNeq, columnGt, columnLt, columnGte, columnLte]

/-- The operators whose operand is a single value and that need no type of their own. -/
def ofValues : List Operator := [eq, neq, gt, lt, gte, lte]

variable {op : Operator}

theorem ofKey?_eq_some {key : String} : ofKey? key = some op ↔ op.key = key := by
  constructor
  · intro h
    simpa using List.find?_some h
  · rintro rfl
    cases op <;> decide +kernel

theorem comparesColumns_iff : op.comparesColumns = true ↔ op ∈ ofColumns := by
  cases op <;> decide

theorem takesList_iff : op.takesList = true ↔ op ∈ [oneOf, noneOf] := by
  cases op <;> decide

theorem isPattern_iff : op.isPattern = true ↔ op ∈ [like, ilike] := by
  cases op <;> decide

theorem takesValue_iff : op.takesValue = true ↔ op ∈ [like, ilike] ∨ op ∈ ofValues := by
  cases op <;> decide

theorem isPattern_of_mem_ofValues (h : op ∈ ofValues) : op.isPattern = false := by
  revert h
  cases op <;> decide

end Operator

namespace Predicate

/-- A document that refers to a session variable. -/
def IsVariable (v : Json) : Prop := ∃ s, v = .str s ∧ SessionVariable.isReference s = true

/-- **A document that stands for a single value** of a field of type `t`. -/
def IsValue (t : ColumnType) (v : Json) : Prop := IsVariable v ∨ t.Holds v

/-- **An operand that an operator takes**, for a field of type `t` of `table`. -/
inductive OperandFits (σ : Schema) (table : String) (t : ColumnType) : Operator → Json → Prop
  /-- Columns are compared with columns of the same table, of whatever type. -/
  | column {op : Operator} {other : String} {t' : ColumnType} : op ∈ Operator.ofColumns →
    σ.column? table other = some t' → OperandFits σ table t op (.str other)
  | isNull (b : Bool) : OperandFits σ table t .isNull (.bool b)
  | list {op : Operator} {items : List Json} : op ∈ [.oneOf, .noneOf] → (∀ v ∈ items, IsValue t v) →
    OperandFits σ table t op (.arr items)
  /-- A list may come with the session as a whole. -/
  | listVariable {op : Operator} {v : Json} : op ∈ [.oneOf, .noneOf] → IsVariable v →
    OperandFits σ table t op v
  | pattern {op : Operator} {v : Json} : op ∈ [.like, .ilike] → t = .text → IsValue t v →
    OperandFits σ table t op v
  | value {op : Operator} {v : Json} : op ∈ Operator.ofValues → IsValue t v → OperandFits σ table t op v

/-- **An object of operators that a field of type `t` takes**: every key is that of an operator, which takes
what stands under it. -/
def FieldFits (σ : Schema) (table : String) (t : ColumnType) (v : Json) : Prop :=
  ∃ entries, v = .obj entries ∧
    ∀ entry ∈ entries, ∃ op : Operator, op.key = entry.1 ∧ OperandFits σ table t op entry.2

variable {σ : Schema} {source table : String} {t : ColumnType} {v : Json}

theorem reference?_eq_some {x : SessionVariable} :
    v.reference? = some x ↔ v = .str x.name ∧ SessionVariable.isReference x.name = true := by
  cases v with
  | str s =>
    have hs : (Json.str s).reference? =
        if SessionVariable.isReference s then some ⟨s⟩ else none := rfl
    rw [hs]
    by_cases h : SessionVariable.isReference s = true
    · rw [if_pos h, Option.some.injEq]
      constructor
      · rintro rfl
        exact ⟨rfl, h⟩
      · rintro ⟨hx, -⟩
        rw [Json.str.inj hx]
    · rw [if_neg h]
      refine ⟨nofun, fun ⟨hx, href⟩ => absurd href ?_⟩
      rwa [← Json.str.inj hx]
  | _ => exact ⟨fun h => (by cases h), fun h => (by cases h.1)⟩

theorem isVariable_iff : IsVariable v ↔ ∃ x, v.reference? = some x := by
  simp only [reference?_eq_some, IsVariable]
  exact ⟨fun ⟨s, hv, hs⟩ => ⟨⟨s⟩, hv, hs⟩, fun ⟨x, hv, hx⟩ => ⟨x.name, hv, hx⟩⟩

/-- **A single value is found exactly where a document stands for one.** -/
theorem isValue_iff : IsValue t v ↔ ∃ s, scalar t v = .ok s := by
  simp only [IsValue, isVariable_iff, scalar_eq_ok, ← ColumnType.fits_iff]
  constructor
  · intro h
    cases href : v.reference? with
    | some x => exact ⟨_, .inl ⟨x, rfl, rfl⟩⟩
    | none =>
      rcases h with ⟨x, hx⟩ | hfits
      · rw [href] at hx
        cases hx
      · exact ⟨_, .inr ⟨rfl, hfits, rfl⟩⟩
  · rintro ⟨s, ⟨x, hx, -⟩ | ⟨-, hfits, -⟩⟩
    · exact .inl ⟨x, hx⟩
    · exact .inr hfits

/-- **An operand is found exactly where one fits.** -/
theorem operandFits_iff {op : Operator} :
    OperandFits σ table t op v ↔ ∃ o, OperandOf σ table t op v o := by
  constructor
  · intro h
    cases h with
    | column hop hother =>
      have hsome : (σ.column? table _).isSome = true := Option.isSome_iff_exists.2 ⟨_, hother⟩
      exact ⟨_, .column (Operator.comparesColumns_iff.2 hop) hsome⟩
    | isNull b => exact ⟨_, .null⟩
    | list hop hitems =>
      obtain ⟨ss, hss⟩ := exists_mapM_eq_ok fun v hv => isValue_iff.1 (hitems v hv)
      exact ⟨_, .list (Operator.takesList_iff.2 hop) hss⟩
    | listVariable hop hv =>
      obtain ⟨x, hx⟩ := isVariable_iff.1 hv
      exact ⟨_, .listVariable (Operator.takesList_iff.2 hop) hx⟩
    | pattern hop ht hv =>
      obtain ⟨s, hs⟩ := isValue_iff.1 hv
      exact ⟨_, .value (Operator.takesValue_iff.2 (.inl hop)) (fun _ => ht) hs⟩
    | value hop hv =>
      obtain ⟨s, hs⟩ := isValue_iff.1 hv
      have hpattern := Operator.isPattern_of_mem_ofValues hop
      refine ⟨_, .value (Operator.takesValue_iff.2 (.inr hop)) (fun h => ?_) hs⟩
      rw [hpattern] at h
      cases h
  · rintro ⟨o, h⟩
    cases h with
    | column hop hother =>
      obtain ⟨t', ht'⟩ := Option.isSome_iff_exists.1 hother
      exact .column (Operator.comparesColumns_iff.1 hop) ht'
    | null => exact .isNull _
    | list hop hss =>
      refine .list (Operator.takesList_iff.1 hop) fun v hv => isValue_iff.2 ?_
      obtain ⟨s, -, hs⟩ := ok_of_mem_mapM hss hv
      exact ⟨s, hs⟩
    | listVariable hop hx => exact .listVariable (Operator.takesList_iff.1 hop) (isVariable_iff.2 ⟨_, hx⟩)
    | value hop htext hs =>
      have hv : IsValue t v := isValue_iff.2 ⟨_, hs⟩
      rcases Operator.takesValue_iff.1 hop with hlike | hvalues
      · exact .pattern hlike (htext (Operator.isPattern_iff.2 hlike)) hv
      · exact .value hvalues hv

/-- **Comparisons are found exactly where an object of operators fits.** -/
theorem fieldFits_iff : FieldFits σ table t v ↔ ∃ cs, comparisons σ table t v = .ok cs := by
  have hentry : ∀ entry : String × Json, (∃ c, comparison σ table t entry = .ok c) ↔
      ∃ op : Operator, op.key = entry.1 ∧ OperandFits σ table t op entry.2 := by
    intro entry
    simp only [comparison_eq_ok, operandFits_iff, ← Operator.ofKey?_eq_some]
    exact ⟨fun ⟨c, hop, ho⟩ => ⟨c.op, hop, c.operand, ho⟩, fun ⟨op, hop, o, ho⟩ => ⟨⟨op, o⟩, hop, ho⟩⟩
  constructor
  · rintro ⟨entries, rfl, hentries⟩
    exact exists_mapM_eq_ok fun entry he => (hentry entry).2 (hentries entry he)
  · rintro ⟨cs, hcs⟩
    cases v with
    | obj entries =>
      refine ⟨entries, rfl, fun entry he => (hentry entry).1 ?_⟩
      obtain ⟨c, -, hc⟩ := ok_of_mem_mapM hcs he
      exact ⟨c, hc⟩
    | _ => exact absurd hcs reject_ne_ok

/-! ## Documents -/

mutual

/-- **A document that is well formed at a table.** -/
inductive WellFormed (σ : Schema) : (table : String) → Json → Prop
  | object {table : String} {entries : List (String × Json)} :
    (∀ entry ∈ entries, WellFormedEntry σ table entry) → WellFormed σ table (.obj entries)

/-- An entry of a document that is well formed at a table. A name is a column's before it is a
relationship's, and a relationship's before it is a computed field's. -/
inductive WellFormedEntry (σ : Schema) : (table : String) → String × Json → Prop
  | and {table : String} {docs : List Json} :
    (∀ doc ∈ docs, WellFormed σ table doc) → WellFormedEntry σ table ("_and", .arr docs)
  | or {table : String} {docs : List Json} :
    (∀ doc ∈ docs, WellFormed σ table doc) → WellFormedEntry σ table ("_or", .arr docs)
  | not {table : String} {doc : Json} : WellFormed σ table doc → WellFormedEntry σ table ("_not", doc)
  | column {table key : String} {v : Json} {t : ColumnType} : key ∉ connectives →
    σ.column? table key = some t → FieldFits σ table t v → WellFormedEntry σ table (key, v)
  | relationship {table key : String} {doc : Json} {r : Relationship} : key ∉ connectives →
    σ.column? table key = none → σ.relationship? table key = some r →
    WellFormed σ r.remoteTable doc → WellFormedEntry σ table (key, doc)
  | computedField {table key : String} {v : Json} {t : ColumnType} : key ∉ connectives →
    σ.column? table key = none → σ.relationship? table key = none →
    σ.computedField? table key = some (.scalar t) → FieldFits σ table t v →
    WellFormedEntry σ table (key, v)

end

/-! ### Names -/

theorem member?_eq_column {key : String} :
    σ.member? table key = some (.column t) ↔ σ.column? table key = some t := by
  unfold Schema.member?
  cases σ.column? table key with
  | some t' => simp
  | none => cases σ.relationship? table key <;> simp

theorem member?_eq_relationship {key : String} {r : Relationship} :
    σ.member? table key = some (.relationship r) ↔
      σ.column? table key = none ∧ σ.relationship? table key = some r := by
  unfold Schema.member?
  cases σ.column? table key with
  | some t' => simp
  | none => cases σ.relationship? table key <;> simp

theorem member?_eq_computedField {key : String} {returns : Returns} :
    σ.member? table key = some (.computedField returns) ↔ σ.column? table key = none ∧
      σ.relationship? table key = none ∧ σ.computedField? table key = some returns := by
  unfold Schema.member?
  cases σ.column? table key with
  | some t' => simp
  | none => cases σ.relationship? table key <;> simp

/-! ### Compiling -/

/-- An entry compiles exactly if it is well formed, if the documents in it do. -/
theorem exists_compilesEntry_iff_of {key : String}
    (hv : ∀ {table}, (∃ p, Compiles σ source table v p) ↔ WellFormed σ table v)
    (hlist : ∀ {items}, v = .arr items → ∀ {table}, (∃ ps, CompilesItems σ source table items ps) ↔
      ∀ doc ∈ items, WellFormed σ table doc) :
    (∃ p, CompilesEntry σ source table (key, v) p) ↔ WellFormedEntry σ table (key, v) := by
  constructor
  · rintro ⟨p, h⟩
    cases h with
    | and hps => exact .and ((hlist rfl).1 ⟨_, hps⟩)
    | or hps => exact .or ((hlist rfl).1 ⟨_, hps⟩)
    | not hp => exact .not (hv.1 ⟨_, hp⟩)
    | column hkey hm hcs => exact .column hkey (member?_eq_column.1 hm) (fieldFits_iff.2 ⟨_, hcs⟩)
    | computedField hkey hm hcs =>
      obtain ⟨hcolumn, hrelationship, hfield⟩ := member?_eq_computedField.1 hm
      exact .computedField hkey hcolumn hrelationship hfield (fieldFits_iff.2 ⟨_, hcs⟩)
    | relationship hkey hm hp =>
      obtain ⟨hcolumn, hrelationship⟩ := member?_eq_relationship.1 hm
      exact .relationship hkey hcolumn hrelationship (hv.1 ⟨_, hp⟩)
  · intro h
    cases h with
    | and hdocs => exact exists_compilesEntry_and.2 ((hlist rfl).2 hdocs)
    | or hdocs => exact exists_compilesEntry_or.2 ((hlist rfl).2 hdocs)
    | not hdoc => exact exists_compilesEntry_not.2 (hv.2 hdoc)
    | column hkey hcolumn hfits =>
      exact (exists_compilesEntry_column hkey (member?_eq_column.2 hcolumn)).2 (fieldFits_iff.1 hfits)
    | relationship hkey hcolumn hrelationship hdoc =>
      have hm := member?_eq_relationship.2 ⟨hcolumn, hrelationship⟩
      exact (exists_compilesEntry_relationship hkey hm).2 (hv.2 hdoc)
    | computedField hkey hcolumn hrelationship hfield hfits =>
      have hm := member?_eq_computedField.2 ⟨hcolumn, hrelationship, hfield⟩
      exact (exists_compilesEntry_computedField hkey hm).2 (fieldFits_iff.1 hfits)

mutual

/-- **A document compiles exactly if it is well formed.** -/
theorem exists_compiles_iff : (doc : Json) → ∀ {table : String},
    (∃ p, Compiles σ source table doc p) ↔ WellFormed σ table doc
  | .obj entries => by
    rw [exists_compiles_obj, exists_compilesEntries_iff entries]
    exact ⟨.object, fun (.object h) => h⟩
  | .null | .bool _ | .num _ | .str _ | .arr _ => by
    exact ⟨fun ⟨_, h⟩ => (by cases h), fun h => (by cases h)⟩

theorem exists_compilesEntries_iff : (entries : List (String × Json)) → ∀ {table : String},
    (∃ ps, CompilesEntries σ source table entries ps) ↔ ∀ entry ∈ entries, WellFormedEntry σ table entry
  | [] => ⟨fun _ => List.forall_mem_nil _, fun _ => ⟨[], .nil⟩⟩
  | (key, v) :: rest => by
    rw [exists_compilesEntries_cons, List.forall_mem_cons, exists_compilesEntries_iff rest,
      exists_compilesEntry_iff_of (exists_compiles_iff v) (exists_compilesList_iff v)]

/-- The documents of an array compile exactly if each is well formed. -/
theorem exists_compilesList_iff : (v : Json) → ∀ {items : List Json}, v = .arr items →
    ∀ {table : String}, (∃ ps, CompilesItems σ source table items ps) ↔
      ∀ doc ∈ items, WellFormed σ table doc
  | .arr items, _, h => by
    obtain rfl := Json.arr.inj h
    exact exists_compilesItems_iff items
  | .null, _, h | .bool _, _, h | .num _, _, h | .str _, _, h | .obj _, _, h => by cases h

theorem exists_compilesItems_iff : (items : List Json) → ∀ {table : String},
    (∃ ps, CompilesItems σ source table items ps) ↔ ∀ doc ∈ items, WellFormed σ table doc
  | [] => ⟨fun _ => List.forall_mem_nil _, fun _ => ⟨[], .nil⟩⟩
  | doc :: rest => by
    rw [exists_compilesItems_cons, List.forall_mem_cons, exists_compiles_iff doc,
      exists_compilesItems_iff rest]

end

end Predicate

/-! ## Typed predicates -/

/-- A single value in comparisons with a field of type `t`. -/
inductive Scalar.Typed (t : ColumnType) : Scalar → Prop
  | literal {v : Json} : t.Holds v → Typed t (.literal v)
  | session {x : SessionVariable} : SessionVariable.isReference x.name = true → Typed t (.session x)

/-- **A comparison that suits a field** of type `t` of `table`. -/
inductive Comparison.Typed (σ : Schema) (table : String) (t : ColumnType) : Comparison → Prop
  | column {op : Operator} {other : String} {t' : ColumnType} : op ∈ Operator.ofColumns →
    σ.column? table other = some t' → Typed σ table t ⟨op, .column other⟩
  | isNull (b : Bool) : Typed σ table t ⟨.isNull, .scalar (.literal (.bool b))⟩
  | list {op : Operator} {ss : List Scalar} : op ∈ [.oneOf, .noneOf] → (∀ s ∈ ss, s.Typed t) →
    Typed σ table t ⟨op, .list ss⟩
  | listVariable {op : Operator} {x : SessionVariable} : op ∈ [.oneOf, .noneOf] →
    SessionVariable.isReference x.name = true → Typed σ table t ⟨op, .scalar (.session x)⟩
  | pattern {op : Operator} {s : Scalar} : op ∈ [.like, .ilike] → t = .text → s.Typed t →
    Typed σ table t ⟨op, .scalar s⟩
  | value {op : Operator} {s : Scalar} : op ∈ Operator.ofValues → s.Typed t →
    Typed σ table t ⟨op, .scalar s⟩

/-- **A predicate whose nodes have what the schema gives** at the table where they stand: the type of a
column or of a computed field under its name, and the remote table of a relationship, at which the predicate
on the related rows stands. -/
inductive Expr.Typed (σ : Schema) : (table : String) → Expr → Prop
  | and {table : String} {parts : List Expr} : (∀ e ∈ parts, Typed σ table e) →
    Typed σ table (.and parts)
  | or {table : String} {parts : List Expr} : (∀ e ∈ parts, Typed σ table e) → Typed σ table (.or parts)
  | not {table : String} {e : Expr} : Typed σ table e → Typed σ table (.not e)
  | column {table name : String} {t : ColumnType} {cs : List Comparison} :
    σ.column? table name = some t → (∀ c ∈ cs, c.Typed σ table t) → Typed σ table (.column name t cs)
  | relationship {table name : String} {r : Relationship} {e : Expr} : σ.column? table name = none →
    σ.relationship? table name = some r → Typed σ r.remoteTable e →
    Typed σ table (.relationship name r.remoteTable e)
  | computedField {table name : String} {t : ColumnType} {cs : List Comparison} :
    σ.column? table name = none → σ.relationship? table name = none →
    σ.computedField? table name = some (.scalar t) → (∀ c ∈ cs, c.Typed σ table t) →
    Typed σ table (.computedField name t cs)

theorem Expr.Typed.conjunction {σ : Schema} {table : String} {parts : List Expr}
    (h : ∀ e ∈ parts, Typed σ table e) : Typed σ table (.conjunction parts) := by
  match parts with
  | [] => exact .and h
  | [e] => exact h e List.mem_cons_self
  | _ :: _ :: _ => exact .and h

namespace Predicate

variable {σ : Schema} {source table : String} {t : ColumnType} {v : Json}

theorem scalar_typed {s : Scalar} (h : scalar t v = .ok s) : s.Typed t := by
  rcases scalar_eq_ok.1 h with ⟨x, hx, rfl⟩ | ⟨-, hfits, rfl⟩
  · exact .session (reference?_eq_some.1 hx).2
  · exact .literal (ColumnType.fits_iff.1 hfits)

theorem ComparisonOf.typed {entry : String × Json} {c : Comparison} (h : ComparisonOf σ table t entry c) :
    c.Typed σ table t := by
  obtain ⟨op, operand⟩ := c
  obtain ⟨-, ho⟩ := h
  generalize entry.2 = v at ho
  cases ho with
  | column hop hother =>
    obtain ⟨t', ht'⟩ := Option.isSome_iff_exists.1 hother
    exact .column (Operator.comparesColumns_iff.1 hop) ht'
  | null => exact .isNull _
  | list hop hss =>
    refine .list (Operator.takesList_iff.1 hop) fun s hs => ?_
    obtain ⟨v, -, hv⟩ := mem_of_mapM hss hs
    exact scalar_typed hv
  | listVariable hop hx => exact .listVariable (Operator.takesList_iff.1 hop) (reference?_eq_some.1 hx).2
  | value hop htext hs =>
    rcases Operator.takesValue_iff.1 hop with hlike | hvalues
    · exact .pattern hlike (htext (Operator.isPattern_iff.2 hlike)) (scalar_typed hs)
    · exact .value hvalues (scalar_typed hs)

theorem comparisons_typed {cs : List Comparison} (h : comparisons σ table t v = .ok cs) :
    ∀ c ∈ cs, c.Typed σ table t := by
  obtain ⟨entries, -, hcs⟩ := comparisons_eq_ok.1 h
  intro c hc
  obtain ⟨entry, -, hentry⟩ := exists_of_mem_right hcs hc
  exact hentry.typed

mutual

/-- **What compiles is typed.** -/
theorem Compiles.typed {table : String} {doc : Json} {p : CompiledPredicate} :
    Compiles σ source table doc p → p.expr.Typed σ table
  | .object hps => .conjunction (CompilesEntries.typed hps)

theorem CompilesEntry.typed {table : String} {entry : String × Json} {p : CompiledPredicate} :
    CompilesEntry σ source table entry p → p.expr.Typed σ table
  | .and hps => .and (CompilesItems.typed hps)
  | .or hps => .or (CompilesItems.typed hps)
  | .not hp => .not (Compiles.typed hp)
  | .column _ hm hcs => .column (member?_eq_column.1 hm) (comparisons_typed hcs)
  | .computedField _ hm hcs =>
    have h := member?_eq_computedField.1 hm
    .computedField h.1 h.2.1 h.2.2 (comparisons_typed hcs)
  | .relationship _ hm hp =>
    have h := member?_eq_relationship.1 hm
    -- from here on names are those of the remote table
    .relationship h.1 h.2 (Compiles.typed hp)

theorem CompilesEntries.typed {table : String} {entries : List (String × Json)}
    {ps : List CompiledPredicate} :
    CompilesEntries σ source table entries ps → ∀ e ∈ ps.map (·.expr), e.Typed σ table
  | .nil => List.forall_mem_nil _
  | .cons hp hps => List.forall_mem_cons.2 ⟨CompilesEntry.typed hp, CompilesEntries.typed hps⟩

theorem CompilesItems.typed {table : String} {items : List Json} {ps : List CompiledPredicate} :
    CompilesItems σ source table items ps → ∀ e ∈ ps.map (·.expr), e.Typed σ table
  | .nil => List.forall_mem_nil _
  | .cons hp hps => List.forall_mem_cons.2 ⟨Compiles.typed hp, CompilesItems.typed hps⟩

end

/-- **The compiler accepts exactly the documents that are well formed** at the table, whatever the schema
and the source, and what it makes of one is typed and comes of the document, node for node. -/
theorem compile_wellFormed (σ : Schema) (source table : String) (doc : Json) :
    ((∃ p, compile σ source table doc = .ok p) ↔ WellFormed σ table doc) ∧
      ∀ p, compile σ source table doc = .ok p → p.expr.Typed σ table ∧ Compiles σ source table doc p := by
  simp only [compile_eq_ok]
  exact ⟨exists_compiles_iff doc, fun p h => ⟨h.typed, h⟩⟩

end Predicate

end TableAccess
