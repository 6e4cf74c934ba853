import TableAccess.Proofs.Predicate.Derivation
import TableAccess.Schema.Catalog

/-!
# What a predicate means

A predicate holds of some rows and not of others, once it is known which comparisons hold of a row and which
rows its relationships lead to. That much is an `Interpretation`. Under one, a document and a compiled
predicate mean something each on its own: a document by its entries, with the schema telling columns,
relationships and computed fields apart, and a compiled predicate by its nodes.

* `Expr.holds`: whether a compiled predicate holds of a row. `Predicate.holds`: whether a document does.
* `Expr.holds_conjunction`: a document's single part stands for itself without a change of meaning.
* `Predicate.compile_holds`: **a document and what it compiles to hold of the same rows.**
-/

namespace TableAccess

/-- What is compared of a row. -/
inductive RowField where
  | column (name : String)
  | computedField (name : String)
deriving DecidableEq

/-- **What rows are like**: which comparisons hold of a row, and which rows of a remote table a relationship
leads to from it. Nothing more is asked of a comparison than the field, the operator and the operand. -/
structure Interpretation where
  Row : (table : String) → Type
  compares : {table : String} → Row table → RowField → Operator → Operand → Bool
  related : {table : String} → Row table → (relationship remoteTable : String) → List (Row remoteTable)

/-- The single value that a document denotes: a session variable, or the document itself. -/
def Scalar.denoted (v : Json) : Scalar :=
  match v.reference? with
  | some x => .session x
  | none => .literal v

/-- **The operand that a document denotes** under an operator: a column, a list of values or a single one. -/
def Operand.denoted (op : Operator) : Json → Operand
  | .str s => if op.comparesColumns then .column s else .scalar (.denoted (.str s))
  | .arr items => if op.takesList then .list (items.map .denoted) else .scalar (.literal (.arr items))
  | v => .scalar (.literal v)

namespace Expr

variable (I : Interpretation)

mutual

/-- **Whether a compiled predicate holds of a row.** -/
def holds : Expr → {table : String} → I.Row table → Bool
  | .and parts, _, row => (truths parts row).all id
  | .or parts, _, row => (truths parts row).any id
  | .not part, _, row => !holds part row
  | .column name _ cs, _, row => cs.all fun c => I.compares row (.column name) c.op c.operand
  | .computedField name _ cs, _, row =>
    cs.all fun c => I.compares row (.computedField name) c.op c.operand
  | .relationship name remoteTable part, _, row =>
    (I.related row name remoteTable).any fun relatedRow => holds part relatedRow

/-- Whether compiled predicates hold of a row, one after the other. -/
def truths : List Expr → {table : String} → I.Row table → List Bool
  | [], _, _ => []
  | e :: rest, _, row => holds e row :: truths rest row

end

/-- **The conjunction of a document's parts holds where all of them do**, also where a single part stands for
itself. -/
theorem holds_conjunction (parts : List Expr) {table : String} (row : I.Row table) :
    (conjunction parts).holds I row = (truths I parts row).all id := by
  match parts with
  | [] => rfl
  | [e] => simp [conjunction, truths]
  | _ :: _ :: _ => rfl

end Expr

namespace Predicate

section

variable (σ : Schema) (I : Interpretation)

/-- Whether an object of operators holds of a field of a row: all of its comparisons do. -/
def fieldHolds {table : String} (row : I.Row table) (field : RowField) : Json → Bool
  | .obj entries => entries.all fun entry =>
    match Operator.ofKey? entry.1 with
    | some op => I.compares row field op (.denoted op entry.2)
    | none => false
  | _ => false

mutual

/-- **Whether a document holds of a row**: all of its entries do. What is no document holds of nothing. -/
def holds : Json → {table : String} → I.Row table → Bool
  | .obj entries, _, row => (entryTruths entries row).all id
  | _, _, _ => false

/-- Whether the entries of a document hold of a row, one after the other. -/
def entryTruths : List (String × Json) → {table : String} → I.Row table → List Bool
  | [], _, _ => []
  | entry :: rest, _, row => entryHolds entry row :: entryTruths rest row

/-- Whether an entry of a document holds of a row: a connective of documents, the comparisons of a field, or
a document that holds of some related row. -/
def entryHolds : String × Json → {table : String} → I.Row table → Bool
  | (key, v), table, row =>
    if key = "_and" then (itemTruths v row).all id
    else if key = "_or" then (itemTruths v row).any id
    else if key = "_not" then !holds v row
    else
      match σ.member? table key with
      | some (.column _) => fieldHolds I row (.column key) v
      | some (.computedField _) => fieldHolds I row (.computedField key) v
      | some (.relationship r) =>
        (I.related row key r.remoteTable).any fun relatedRow => holds v relatedRow
      | none => false

/-- Whether the documents of an array hold of a row, one after the other. -/
def itemTruths : Json → {table : String} → I.Row table → List Bool
  | .arr docs, _, row => truths docs row
  | _, _, _ => []

/-- Whether documents hold of a row, one after the other. -/
def truths : List Json → {table : String} → I.Row table → List Bool
  | [], _, _ => []
  | doc :: rest, _, row => holds doc row :: truths rest row

end

end

variable {σ : Schema} {source table : String} {t : ColumnType} (I : Interpretation)

theorem entryHolds_of_member {key : String} (h : key ∉ connectives) (v : Json) (row : I.Row table) :
    entryHolds σ I (key, v) row =
      match σ.member? table key with
      | some (.column _) => fieldHolds I row (.column key) v
      | some (.computedField _) => fieldHolds I row (.computedField key) v
      | some (.relationship r) =>
        (I.related row key r.remoteTable).any fun relatedRow => holds σ I v relatedRow
      | none => false := by
  simp only [connectives, List.mem_cons, List.not_mem_nil, or_false, not_or] at h
  rw [entryHolds, if_neg h.1, if_neg h.2.1, if_neg h.2.2]

/-! ## Operands -/

theorem scalar_denotes {v : Json} {s : Scalar} (h : scalar t v = .ok s) : s = .denoted v := by
  unfold Scalar.denoted
  rcases scalar_eq_ok.1 h with ⟨x, hx, rfl⟩ | ⟨hx, -, rfl⟩ <;> rw [hx]

theorem scalars_denote {items : List Json} {ss : List Scalar} (h : scalars t items = .ok ss) :
    ss = items.map .denoted := by
  have hall := mapM_eq_ok.1 h
  clear h
  induction hall with
  | nil => rfl
  | cons hs _ ih => rw [List.map_cons, ← scalar_denotes hs, ← ih]

/-- **An operand is the one that its document denotes.** -/
theorem OperandOf.denotes {op : Operator} {v : Json} {o : Operand} (h : OperandOf σ table t op v o) :
    o = .denoted op v := by
  cases h with
  | column hop _ => rw [Operand.denoted, if_pos hop]
  | null => rfl
  | list hop hss => rw [Operand.denoted, if_pos hop, scalars_denote hss]
  | @listVariable op v x hop hx =>
    -- only a string refers to a session variable
    cases v with
    | str s =>
      have hcolumns := (Operator.of_takesList hop).1
      simp [Operand.denoted, hcolumns, Scalar.denoted, hx]
    | _ => cases hx
  | @value op v s hop _ hs =>
    obtain ⟨hcolumns, -⟩ := Operator.of_takesValue hop
    rw [scalar_denotes hs]
    cases v with
    | str s => simp [Operand.denoted, hcolumns]
    | arr items =>
      have hlist : op.takesList = false := by
        revert hop
        cases op <;> decide
      simp [Operand.denoted, hlist, Scalar.denoted, Json.reference?]
    | _ => rfl

/-- **The comparisons of a field hold where its object of operators does.** -/
theorem comparisons_hold {v : Json} {cs : List Comparison} (h : comparisons σ table t v = .ok cs)
    (row : I.Row table) (field : RowField) :
    (cs.all fun c => I.compares row field c.op c.operand) = fieldHolds I row field v := by
  obtain ⟨entries, rfl, hcs⟩ := comparisons_eq_ok.1 h
  clear h
  simp only [fieldHolds]
  induction hcs with
  | nil => rfl
  | cons hc _ ih => rw [List.all_cons, List.all_cons, ih, hc.op, hc.operand.denotes]

/-! ## Documents -/

mutual

/-- **A document and what it compiles to hold of the same rows.** -/
theorem Compiles.holds_eq {table : String} {doc : Json} {p : CompiledPredicate} :
    Compiles σ source table doc p → ∀ row : I.Row table, p.expr.holds I row = holds σ I doc row
  | .object hps, row => by
    rw [Expr.holds_conjunction, CompilesEntries.truths_eq hps, holds]

theorem CompilesEntry.holds_eq {table : String} {entry : String × Json} {p : CompiledPredicate} :
    CompilesEntry σ source table entry p →
      ∀ row : I.Row table, p.expr.holds I row = entryHolds σ I entry row
  | .and hps, row => by
    rw [Expr.holds, CompilesItems.truths_eq hps]
    rfl
  | .or hps, row => by
    rw [Expr.holds, CompilesItems.truths_eq hps]
    rfl
  | .not hp, row => by
    rw [Expr.holds, Compiles.holds_eq hp]
    rfl
  | .column hkey hm hcs, row => by
    rw [Expr.holds, comparisons_hold I hcs, entryHolds_of_member I hkey, hm]
  | .computedField hkey hm hcs, row => by
    rw [Expr.holds, comparisons_hold I hcs, entryHolds_of_member I hkey, hm]
  | .relationship hkey hm hp, row => by
    rw [Expr.holds, entryHolds_of_member I hkey, hm]
    -- from here on rows are those of the remote table
    exact congrArg (fun f => List.any _ f) (funext (Compiles.holds_eq hp))

theorem CompilesEntries.truths_eq {table : String} {entries : List (String × Json)}
    {ps : List CompiledPredicate} : CompilesEntries σ source table entries ps →
      ∀ row : I.Row table, Expr.truths I (ps.map (·.expr)) row = entryTruths σ I entries row
  | .nil, _ => rfl
  | .cons hp hps, row => by
    rw [List.map_cons, Expr.truths, entryTruths, CompilesEntry.holds_eq hp, CompilesEntries.truths_eq hps]

theorem CompilesItems.truths_eq {table : String} {docs : List Json} {ps : List CompiledPredicate} :
    CompilesItems σ source table docs ps →
      ∀ row : I.Row table, Expr.truths I (ps.map (·.expr)) row = truths σ I docs row
  | .nil, _ => rfl
  | .cons hp hps, row => by
    rw [List.map_cons, Expr.truths, truths, Compiles.holds_eq hp, CompilesItems.truths_eq hps]

end

/-- **Compiling keeps the meaning**: under any interpretation, a document that compiles and its compiled
predicate hold of the same rows. -/
theorem compile_holds {doc : Json} {p : CompiledPredicate} (h : compile σ source table doc = .ok p)
    (row : I.Row table) : p.expr.holds I row = holds σ I doc row :=
  ((compile_eq_ok doc).1 h).holds_eq I row

/-- Of authors those with id 7 are meant, if their publisher is not in Ghent: an object of two entries holds
objects of a single entry and one without any. -/
theorem compile_holds_authors :
    let publisher : Table := ⟨"publisher", [⟨"place", .text⟩], [], []⟩
    let author : Table := ⟨"author", [⟨"id", .integer⟩], [⟨"publisher", ⟨"publisher", .one⟩⟩], []⟩
    let σ := (Catalog.ofTables [publisher, author]).schema
    let doc : Json := .obj [
      ("_or", .arr [.obj [("id", .obj [("_in", .arr [.num (.int 7), .str "X-Hasura-Id"])])],
        .obj [("_not", .obj [])]]),
      ("publisher", .obj [("_not", .obj [("place", .obj [("_eq", .str "Ghent")])])])]
    -- rows are ids, and every author works for a publisher with the same id
    let I : Interpretation := {
      Row := fun _ => Int
      compares := fun id field _ operand =>
        field = .column "id" && operand.scalars.contains (.literal (.num (.int id)))
      related := fun id _ _ => [id] }
    let seventh : I.Row "author" := (7 : Int)
    let eighth : I.Row "author" := (8 : Int)
    ∃ p, compile σ "default" "author" doc = .ok p ∧
      (holds σ I doc seventh = true ∧ holds σ I doc eighth = false) ∧
      p.expr.holds I seventh = holds σ I doc seventh ∧ p.expr.holds I eighth = holds σ I doc eighth := by
  intro publisher author σ doc I seventh eighth
  have hok : (compile σ "default" "author" doc).isOk = true := by decide +kernel
  have hmeant : holds σ I doc seventh = true ∧ holds σ I doc eighth = false := by decide +kernel
  obtain ⟨p, hp⟩ := exists_of_isOk hok
  exact ⟨p, hp, hmeant, compile_holds I hp seventh, compile_holds I hp eighth⟩

end Predicate

end TableAccess
