import TableAccess.Permission.Descriptor
import TableAccess.Predicate.Compile

/-!
# Compiling permissions

A clause is checked against a schema, part by part in a fixed order, and the first part that breaks
a rule is reported. A compiled permission lists what it depends on: its table, then what its
predicates use, then its presets, then the columns and computed fields that it lists by name.
-/

namespace TableAccess

/-- A compiled permission: its descriptor, and what it depends on. -/
structure CompiledPermission where
  descriptor : Descriptor
  dependencies : List Dependency

namespace Permission

variable (σ : Schema) (source table : String)

/-- The type of the column `name`, or why it cannot be taken as a column. -/
def columnType (name : String) : Except (Located RuleFault) ColumnType :=
  match σ.column? table name with
  | some t => .ok t
  | none =>
    if (σ.relationship? table name).isSome then fail (.relationshipNotAllowed table name)
    else fail (.columnNotFound table name)

/-- The columns of a list, and the dependency on each that is listed by name. -/
def resolveColumns (spec : ColumnSpec) :
    Except (Located RuleFault) (SortedSet String × List Dependency) :=
  match spec with
  | .all => .ok (.ofList ((σ.columns table).map (·.1)), [])
  | .listed names => do
    let _ ← names.mapM (columnType σ table)
    return (.ofList names, names.eraseDups.map fun n => ⟨source, table, .column n, .untyped⟩)

/-- The preset that `value` stands for in a column. -/
def resolvePreset (column : String) (value : Json) : Except (Located RuleFault) Preset := do
  let t ← columnType σ table column
  let literal : Except (Located RuleFault) Preset :=
    if t.fits value then .ok (.literal value t) else fail (.presetMismatch t column value)
  match value with
  | .str s =>
    match SessionVariable.ofReference? s with
    | some v => return .session v t
    | none => literal
  | _ => literal

/-- Looks presets up, in order of their columns. -/
def resolvePresets (presets : Presets) :
    Except (Located RuleFault) (List (String × Preset)) :=
  presets.toList.mapM fun p =>
    (within p.1 (resolvePreset σ table p.1 p.2)).map fun preset => (p.1, preset)

/-- What a preset uses. -/
def presetUses (p : String × Preset) : Uses :=
  match p.2 with
  | .literal _ _ => .one ⟨source, table, .column p.1, .typeDerived⟩
  | .session v _ => ⟨[⟨source, table, .column p.1, .sessionVariable⟩], [v]⟩

/-- What presets use, in order. -/
def presetsUses (presets : List (String × Preset)) : Uses :=
  presets.foldr (fun p u => presetUses source table p ++ u) .none

/-- The type of a computed field that returns a scalar. -/
def scalarField (name : String) : Except (Located RuleFault) ColumnType :=
  match σ.computedField? table name with
  | some (.scalar t) => .ok t
  | some (.rows returns) => fail (.rowsFieldListed name returns)
  | none => fail (.computedFieldNotFound table name)

/-- The computed fields of a list with their types, each once. -/
def resolveComputedFields (names : List String) :
    Except (Located RuleFault) (List (String × ColumnType)) :=
  names.eraseDups.mapM fun n => (scalarField σ table n).map fun t => (n, t)

/-- A limit must be positive. -/
def checkLimit (limit : Option Int) : Except (Located RuleFault) (Option Nat) :=
  match limit with
  | none => .ok none
  | some n => if n ≤ 0 then fail (.invalidLimit n) else .ok (some n.toNat)

/-- The aggregate root field can be listed only where aggregations are allowed. -/
def checkRootFields (allowAggregations : Bool) (fields : Option (List RootField)) :
    Except (Located RuleFault) Unit :=
  match fields with
  | none => .ok ()
  | some l =>
    if !allowAggregations && l.contains .selectAggregate then fail .aggregateNotAllowed else .ok ()

/-- The dependencies of a permission in their order. -/
def dependencies (predicates presets : Uses) (listed : List Dependency) : List Dependency :=
  ⟨source, table, .table, .table⟩ ::
    (predicates.dependencies ++ presets.dependencies ++ listed)

/-- The columns that no preset sets. -/
def withoutPresets (columns : SortedSet String) (presets : SortedMap String Preset) :
    SortedSet String :=
  columns.filter fun c => !presets.contains c

/-- Compiles what may be inserted. Without a column list every column is meant. -/
def compileInsert (c : InsertClause) : Except (Located RuleFault) CompiledPermission := do
  let check ← within "check" (Predicate.compile σ source table c.check)
  let presets ← within "set" (resolvePresets σ table (c.set.getD .empty))
  let (columns, listed) ← within "columns" (resolveColumns σ source table (c.columns.getD .all))
  let set := SortedMap.ofList presets
  let uses := presetsUses source table presets
  return ⟨.insert {
      columns := withoutPresets columns set
      check := check.expr
      set
      backendOnly := c.backendOnly.getD false
      requiredHeaders := .ofList (check.uses.sessionVariables ++ uses.sessionVariables) },
    dependencies source table check.uses uses listed⟩

/-- Compiles what may be selected. -/
def compileSelect (c : SelectClause) : Except (Located RuleFault) CompiledPermission := do
  let (columns, listed) ← within "columns" (resolveColumns σ source table c.columns)
  let filter ← within "filter" (Predicate.compile σ source table c.filter)
  let limit ← within "limit" (checkLimit c.limit)
  let fields ← within "computed_fields" (resolveComputedFields σ table c.computedFields)
  within "query_root_fields" (checkRootFields c.allowAggregations c.queryRootFields)
  within "subscription_root_fields" (checkRootFields c.allowAggregations c.subscriptionRootFields)
  return ⟨.select {
      columns
      computedFields := .ofList fields
      filter := filter.expr
      limit
      allowAggregations := c.allowAggregations
      queryRootFields := c.queryRootFields
      subscriptionRootFields := c.subscriptionRootFields
      requiredHeaders := .ofList filter.uses.sessionVariables },
    dependencies source table filter.uses .none
      (listed ++ fields.map fun f => ⟨source, table, .computedField f.1, .untyped⟩)⟩

/-- Compiles what may be updated. Without a check the filter must hold after the update too. -/
def compileUpdate (c : UpdateClause) : Except (Located RuleFault) CompiledPermission := do
  let (columns, listed) ← within "columns" (resolveColumns σ source table c.columns)
  let presets ← within "set" (resolvePresets σ table (c.set.getD .empty))
  let filter ← within "filter" (Predicate.compile σ source table c.filter)
  let check? ← c.check.mapM fun doc => within "check" (Predicate.compile σ source table doc)
  let set := SortedMap.ofList presets
  let uses := presetsUses source table presets
  let predicates := filter.uses ++ (check?.map (·.uses)).getD .none
  return ⟨.update {
      columns := withoutPresets columns set
      filter := filter.expr
      check := (check?.map (·.expr)).getD filter.expr
      set
      -- Presets come before predicates here, so their spellings count.
      requiredHeaders := .ofList (uses.sessionVariables ++ predicates.sessionVariables) },
    dependencies source table predicates uses listed⟩

/-- Compiles what may be deleted. -/
def compileDelete (c : DeleteClause) : Except (Located RuleFault) CompiledPermission := do
  let filter ← within "filter" (Predicate.compile σ source table c.filter)
  return ⟨.delete ⟨filter.expr, .ofList filter.uses.sessionVariables⟩,
    dependencies source table filter.uses .none []⟩

/-- **Compiles a clause for `table` against the schema of `source`.** -/
def compile (clause : Clause) : Except (Located RuleFault) CompiledPermission :=
  within "permission" <|
    match clause with
    | .insert c => compileInsert σ source table c
    | .select c => compileSelect σ source table c
    | .update c => compileUpdate σ source table c
    | .delete c => compileDelete σ source table c

end Permission

end TableAccess
