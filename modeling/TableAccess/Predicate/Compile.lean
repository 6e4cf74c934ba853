import TableAccess.Dependency
import TableAccess.Fault
import TableAccess.Predicate.Basic
import TableAccess.Predicate.Literal
import TableAccess.Schema.Basic

/-!
# Compiling predicates

A predicate document is an object whose entries must all hold. Under `_and`, `_or` and `_not` stand
documents for the same table; any other key is a column, a relationship or a computed field of the
table. A column or a scalar computed field takes an object of operators, a relationship a document
for its remote table.

Compiling gives the expression together with what it uses (`Uses`): the dependencies and the session
variables, in the order in which the document brings them.
-/

namespace TableAccess

/-- What a compiled predicate uses. -/
structure Uses where
  dependencies : List Dependency
  sessionVariables : List SessionVariable
deriving DecidableEq

namespace Uses

/-- Uses nothing. -/
def none : Uses := ⟨[], []⟩

/-- Uses what `a` uses, then what `b` uses. -/
def append (a b : Uses) : Uses :=
  ⟨a.dependencies ++ b.dependencies, a.sessionVariables ++ b.sessionVariables⟩

instance : Append Uses := ⟨append⟩

/-- Uses one thing of the schema. -/
def one (d : Dependency) : Uses := ⟨[d], []⟩

/-- Uses session variables. -/
def session (l : List SessionVariable) : Uses := ⟨[], l⟩

end Uses

/-- A compiled predicate with what it uses. -/
structure CompiledPredicate where
  expr : Expr
  uses : Uses

/-- The session variables that a compiled predicate needs. -/
def CompiledPredicate.headers (c : CompiledPredicate) : RequiredHeaders :=
  SortedSet.ofList c.uses.sessionVariables

namespace Predicate

variable {α : Type}

/-- Fails with a fault of the document. -/
def reject (fault : PredicateFault) : Except (Located RuleFault) α := fail (.predicate fault)

/-- The single value that `v` stands for in comparisons with a field of type `t`. -/
def scalar (t : ColumnType) (v : Json) : Except (Located RuleFault) Scalar :=
  match v with
  | .str s =>
    match SessionVariable.ofReference? s with
    | some x => .ok (.session x)
    | none => if t.fits v then .ok (.literal v) else reject (.valueExpected t v)
  | _ => if t.fits v then .ok (.literal v) else reject (.valueExpected t v)

/-- The values of a list in comparisons with a field of type `t`. -/
def scalars (t : ColumnType) (items : List Json) : Except (Located RuleFault) (List Scalar) :=
  items.mapM (scalar t)

/-- What `v` stands for as the operand of `op`, for a field of type `t` in `table`. -/
def operand (σ : Schema) (table : String) (t : ColumnType) (op : Operator) (v : Json) :
    Except (Located RuleFault) Operand :=
  if op.comparesColumns then
    match v with
    | .str other =>
      if (σ.column? table other).isSome then .ok (.column other)
      else reject (.unknownColumn other table)
    | _ => reject (.columnNameExpected v)
  else
    match op with
    | .isNull =>
      match v with
      | .bool _ => .ok (.scalar (.literal v))
      | _ => reject (.booleanExpected v)
    | .oneOf | .noneOf =>
      match v with
      | .arr items => (scalars t items).map .list
      | .str s =>
        match SessionVariable.ofReference? s with
        | some x => .ok (.scalar (.session x))
        | none => reject (.listExpected v)
      | _ => reject (.listExpected v)
    | op =>
      if op.isPattern && t != .text then reject (.patternType t)
      else (scalar t v).map .scalar

/-- The comparison that an entry of an object of operators stands for. -/
def comparison (σ : Schema) (table : String) (t : ColumnType) (entry : String × Json) :
    Except (Located RuleFault) Comparison :=
  match Operator.ofKey? entry.1 with
  | none => reject (.unknownOperator entry.1)
  | some op => (within entry.1 (operand σ table t op entry.2)).map fun o => ⟨op, o⟩

/-- The comparisons that an object of operators stands for. -/
def comparisons (σ : Schema) (table : String) (t : ColumnType) (v : Json) :
    Except (Located RuleFault) (List Comparison) :=
  match v with
  | .obj entries => entries.mapM (comparison σ table t)
  | _ => reject (.operatorsExpected v)

/-- Why a field depends on its type: it does when it stands beside a literal, and not when it only
stands beside session variables. The test for null and comparisons of columns say nothing of it. -/
def reason (cs : List Comparison) : Reason :=
  let beside := (cs.filter fun c => !c.op.comparesColumns && c.op != .isNull).flatMap
    fun c => c.operand.scalars
  if beside.any (fun s => s matches .literal _) then .typeDerived
  else if beside.any (fun s => s matches .session _) then .sessionVariable
  else .untyped

/-- The session variables of an operand. -/
def operandVariables (o : Operand) : List SessionVariable :=
  o.scalars.filterMap fun
    | .session v => some v
    | .literal _ => none

/-- What a field with its comparisons uses: the columns it is compared with, then itself. -/
def fieldUses (source table : String) (target : Target) (cs : List Comparison) : Uses :=
  ⟨cs.filterMap (fun c =>
      match c.operand with
      | .column other => some ⟨source, table, .column other, .typeDerived⟩
      | _ => none) ++ [⟨source, table, target, reason cs⟩],
    cs.flatMap fun c => operandVariables c.operand⟩

/-- A column with its comparisons. -/
def column (σ : Schema) (source table name : String) (t : ColumnType) (v : Json) :
    Except (Located RuleFault) CompiledPredicate := do
  let cs ← comparisons σ table t v
  return ⟨.column name t cs, fieldUses source table (.column name) cs⟩

/-- A computed field with its comparisons; it must return a scalar. -/
def computedField (σ : Schema) (source table name : String) (returns : Returns) (v : Json) :
    Except (Located RuleFault) CompiledPredicate :=
  match returns with
  | .scalar t => do
    let cs ← comparisons σ table t v
    return ⟨.computedField name t cs, fieldUses source table (.computedField name) cs⟩
  | .rows _ => reject (.rowsField name)

/-- What following a relationship uses. -/
def relationshipUses (source table name : String) (r : Relationship) : Uses :=
  ⟨[⟨source, table, .relationship name, .untyped⟩, ⟨source, r.remoteTable, .table, .table⟩], []⟩

/-- The conjunction of compiled parts. -/
def conjunction (parts : List CompiledPredicate) : CompiledPredicate :=
  ⟨.conjunction (parts.map (·.expr)), parts.foldr (fun p u => p.uses ++ u) .none⟩

mutual

/-- **Compiles a document to a predicate on the rows of `table`.** -/
def compile (σ : Schema) (source : String) : (table : String) → Json →
    Except (Located RuleFault) CompiledPredicate
  | table, .obj entries => (compileEntries σ source table entries).map conjunction
  | _, doc => reject (.objectExpected doc)

/-- Compiles the entries of a document. -/
def compileEntries (σ : Schema) (source : String) : (table : String) → List (String × Json) →
    Except (Located RuleFault) (List CompiledPredicate)
  | _, [] => .ok []
  | table, (key, v) :: rest => do
    let part ← within key (
      if key == "_and" then
        (compileList σ source table v).map fun ps =>
          ⟨.and (ps.map (·.expr)), ps.foldr (fun p u => p.uses ++ u) .none⟩
      else if key == "_or" then
        (compileList σ source table v).map fun ps =>
          ⟨.or (ps.map (·.expr)), ps.foldr (fun p u => p.uses ++ u) .none⟩
      else if key == "_not" then
        (compile σ source table v).map fun p => ⟨.not p.expr, p.uses⟩
      else
        match σ.member? table key with
        | some (.column t) => column σ source table key t v
        | some (.relationship r) =>
          -- From here on names are those of the remote table.
          (compile σ source r.remoteTable v).map fun p =>
            ⟨.relationship key r.remoteTable p.expr, relationshipUses source table key r ++ p.uses⟩
        | some (.computedField returns) => computedField σ source table key returns v
        | none => reject (.unknownMember key table))
    return part :: (← compileEntries σ source table rest)

/-- Compiles an array of documents. -/
def compileList (σ : Schema) (source : String) : (table : String) → Json →
    Except (Located RuleFault) (List CompiledPredicate)
  | table, .arr items => compileItems σ source table items
  | _, doc => reject (.arrayExpected doc)

/-- Compiles documents for the same table. -/
def compileItems (σ : Schema) (source : String) : (table : String) → List Json →
    Except (Located RuleFault) (List CompiledPredicate)
  | _, [] => .ok []
  | table, doc :: rest => do
    return (← compile σ source table doc) :: (← compileItems σ source table rest)

end

end Predicate

end TableAccess
