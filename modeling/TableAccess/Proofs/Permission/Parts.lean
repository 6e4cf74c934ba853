import TableAccess.Permission.Compile
import TableAccess.Proofs.Predicate.Derivation

/-!
# The parts of a permission

Whatever its kind, a clause has a predicate, perhaps a second one, presets, a column list and computed
fields; a kind that cannot have one of them has it empty. A clause compiles if each of its parts can be
resolved, and the compiled permission is put together from what they resolve to.

* `Clause.Resolves`: a clause resolves to `Parts`. `Parts.permission`: what is put together from them.
* `Permission.compile_eq_ok`: **a clause compiles exactly if it resolves.**
-/

namespace TableAccess

namespace Clause

/-- The predicate on the rows that are read or, for an insert permission, written. -/
def predicate : Clause → Json
  | insert c => c.check
  | select c => c.filter
  | update c => c.filter
  | delete c => c.filter

/-- The predicate on rows after an update. -/
def laterCheck : Clause → Option Json
  | update c => c.check
  | _ => none

/-- The presets of a clause. -/
def presets : Clause → Presets
  | insert c => c.set.getD .empty
  | update c => c.set.getD .empty
  | _ => .empty

/-- The columns of a clause. -/
def columnSpec : Clause → ColumnSpec
  | insert c => c.columns.getD .all
  | select c => c.columns
  | update c => c.columns
  | delete _ => .listed []

/-- The computed fields of a clause. -/
def computedFields : Clause → List String
  | select c => c.computedFields
  | _ => []

/-- The limit of a clause. -/
def limit : Clause → Option Int
  | select c => c.limit
  | _ => none

/-- The root fields that a clause opens are allowed. -/
def RootFieldsAllowed : Clause → Prop
  | select c => Permission.checkRootFields c.allowAggregations c.queryRootFields = .ok () ∧
      Permission.checkRootFields c.allowAggregations c.subscriptionRootFields = .ok ()
  | _ => True

end Clause

/-- What the parts of a clause resolve to. -/
structure Parts where
  predicate : CompiledPredicate
  laterCheck : Option CompiledPredicate
  presets : List (String × Preset)
  /-- The columns, and the dependency on each that is listed by name. -/
  columns : SortedSet String × List Dependency
  computedFields : List (String × ColumnType)
  limit : Option Nat

namespace Parts

variable (x : Parts) (source table : String)

/-- What the predicates use. -/
def predicateUses : Uses := x.predicate.uses ++ (x.laterCheck.map (·.uses)).getD .none

@[simp] theorem predicateUses_none (p : CompiledPredicate) (presets : List (String × Preset))
    (columns : SortedSet String × List Dependency) (fields : List (String × ColumnType))
    (limit : Option Nat) :
    (⟨p, none, presets, columns, fields, limit⟩ : Parts).predicateUses = p.uses :=
  congr_arg₂ Uses.mk (List.append_nil _) (List.append_nil _)

/-- What the presets use. -/
def presetUses : Uses := Permission.presetsUses source table x.presets

/-- The presets by column. -/
def set : SortedMap String Preset := .ofList x.presets

/-- The descriptor that is put together from the parts. -/
def descriptor : Clause → Descriptor
  | .insert c => .insert {
      columns := Permission.withoutPresets x.columns.1 x.set
      check := x.predicate.expr
      set := x.set
      backendOnly := c.backendOnly.getD false
      requiredHeaders :=
        .ofList (x.predicateUses.sessionVariables ++ (x.presetUses source table).sessionVariables) }
  | .select c => .select {
      columns := x.columns.1
      computedFields := .ofList x.computedFields
      filter := x.predicate.expr
      limit := x.limit
      allowAggregations := c.allowAggregations
      queryRootFields := c.queryRootFields
      subscriptionRootFields := c.subscriptionRootFields
      requiredHeaders := .ofList x.predicateUses.sessionVariables }
  | .update _ => .update {
      columns := Permission.withoutPresets x.columns.1 x.set
      filter := x.predicate.expr
      check := (x.laterCheck.map (·.expr)).getD x.predicate.expr
      set := x.set
      requiredHeaders :=
        .ofList ((x.presetUses source table).sessionVariables ++ x.predicateUses.sessionVariables) }
  | .delete _ => .delete ⟨x.predicate.expr, .ofList x.predicateUses.sessionVariables⟩

/-- What is put together from the parts depends on. -/
def dependencies : List Dependency :=
  Permission.dependencies source table x.predicateUses (x.presetUses source table)
    (x.columns.2 ++ x.computedFields.map fun f => ⟨source, table, .computedField f.1, .untyped⟩)

section

variable {x source table} {d : Dependency}

theorem mem_of_predicateUses (h : d ∈ x.predicateUses.dependencies) : d ∈ x.dependencies source table :=
  List.mem_cons_of_mem _ (List.mem_append_left _ (List.mem_append_left _ h))

theorem mem_of_predicate (h : d ∈ x.predicate.uses.dependencies) : d ∈ x.dependencies source table :=
  mem_of_predicateUses (List.mem_append_left _ h)

theorem mem_of_laterCheck {q : CompiledPredicate} (hq : q ∈ x.laterCheck)
    (h : d ∈ q.uses.dependencies) : d ∈ x.dependencies source table := by
  refine mem_of_predicateUses (List.mem_append_right _ ?_)
  rw [Option.mem_def.1 hq]
  exact h

theorem mem_of_presets (h : d ∈ (x.presetUses source table).dependencies) :
    d ∈ x.dependencies source table :=
  List.mem_cons_of_mem _ (List.mem_append_left _ (List.mem_append_right _ h))

theorem mem_of_columns (h : d ∈ x.columns.2) : d ∈ x.dependencies source table :=
  List.mem_cons_of_mem _ (List.mem_append_right _ (List.mem_append_left _ h))

theorem mem_of_computedField {f : String × ColumnType} (hf : f ∈ x.computedFields) :
    ⟨source, table, .computedField f.1, .untyped⟩ ∈ x.dependencies source table :=
  List.mem_cons_of_mem _ (List.mem_append_right _ (List.mem_append_right _
    (List.mem_map.2 ⟨f, hf, rfl⟩)))

end

/-- **The permission that is put together from the parts.** -/
def permission (clause : Clause) : CompiledPermission :=
  ⟨x.descriptor source table clause, x.dependencies source table⟩

end Parts

/-- **The clause resolves to the parts.** -/
structure Clause.Resolves (σ : Schema) (source table : String) (clause : Clause) (x : Parts) : Prop where
  predicate : Predicate.Compiles σ source table clause.predicate x.predicate
  laterCheck : Option.Rel (Predicate.Compiles σ source table) clause.laterCheck x.laterCheck
  presets : Permission.resolvePresets σ table clause.presets = .ok x.presets
  columns : Permission.resolveColumns σ source table clause.columnSpec = .ok x.columns
  computedFields : Permission.resolveComputedFields σ table clause.computedFields = .ok x.computedFields
  limit : Permission.checkLimit clause.limit = .ok x.limit
  rootFields : clause.RootFieldsAllowed

namespace Permission

variable {σ : Schema} {source table : String}

/-! ## Columns and presets -/

theorem columnType_eq_ok {name : String} {t : ColumnType} :
    columnType σ table name = .ok t ↔ σ.column? table name = some t := by
  unfold columnType
  split
  next t' h => rw [h, Except.ok.injEq, Option.some.injEq]
  next h =>
    rw [h]
    split <;> exact ⟨nofun, nofun⟩

theorem resolvePreset_eq (column : String) (value : Json) : resolvePreset σ table column value =
    columnType σ table column >>= fun t =>
      value.reference?.elim
        (if t.fits value then .ok (.literal value t) else fail (.presetMismatch t column value))
        fun v => .ok (.session v t) := by
  cases value with
  | str s =>
    simp only [resolvePreset, Json.reference?]
    congr 1
    funext t
    cases SessionVariable.ofReference? s <;> rfl
  | _ => rfl

/-- A preset is a session variable, whatever the type of its column, or a literal that fits the type. -/
theorem resolvePreset_eq_ok {column : String} {value : Json} {preset : Preset} :
    resolvePreset σ table column value = .ok preset ↔ ∃ t, σ.column? table column = some t ∧
      ((∃ v, value.reference? = some v ∧ preset = .session v t) ∨
        value.reference? = none ∧ t.fits value = true ∧ preset = .literal value t) := by
  simp only [resolvePreset_eq, bind_eq_ok, columnType_eq_ok]
  exact exists_congr fun t => and_congr_right fun _ => Predicate.reference_or_literal_eq_ok

theorem mem_presetsUses {presets : List (String × Preset)} {d : Dependency} :
    d ∈ (presetsUses source table presets).dependencies ↔
      ∃ p ∈ presets, d ∈ (presetUses source table p).dependencies := by
  induction presets with
  | nil => exact ⟨(by cases ·), fun ⟨_, h, _⟩ => (by cases h)⟩
  | cons p presets ih =>
    show d ∈ (presetUses source table p).dependencies ++ (presetsUses source table presets).dependencies ↔ _
    rw [List.mem_append, ih, List.exists_mem_cons_iff]

@[simp] theorem presetsUses_nil : presetsUses source table [] = .none := rfl

/-! ## Clauses -/

theorem compileInsert_eq_ok {c : InsertClause} {p : CompiledPermission} :
    compileInsert σ source table c = .ok p ↔
      ∃ x, (Clause.insert c).Resolves σ source table x ∧ p = x.permission source table (.insert c) := by
  simp only [compileInsert, bind_eq_ok, within_eq_ok, pure_eq_ok, Predicate.compile_eq_ok]
  constructor
  · rintro ⟨check, hcheck, presets, hpresets, columns, hcolumns, rfl⟩
    refine ⟨⟨check, none, presets, columns, [], none⟩,
      ⟨hcheck, .none, hpresets, hcolumns, rfl, rfl, trivial⟩, ?_⟩
    simp [Parts.permission, Parts.descriptor, Parts.dependencies, Parts.presetUses, Parts.set]
  · rintro ⟨⟨check, _, presets, columns, fields, _⟩,
      ⟨hcheck, hlater, hpresets, hcolumns, hfields, -, -⟩, rfl⟩
    -- an insert permission has neither a later check nor computed fields
    cases hlater
    obtain rfl : [] = fields := Except.ok.inj hfields
    refine ⟨check, hcheck, presets, hpresets, columns, hcolumns, ?_⟩
    simp [Parts.permission, Parts.descriptor, Parts.dependencies, Parts.presetUses, Parts.set]

theorem compileSelect_eq_ok {c : SelectClause} {p : CompiledPermission} :
    compileSelect σ source table c = .ok p ↔
      ∃ x, (Clause.select c).Resolves σ source table x ∧ p = x.permission source table (.select c) := by
  simp only [compileSelect, bind_eq_ok, within_eq_ok, pure_eq_ok, Predicate.compile_eq_ok]
  constructor
  · rintro ⟨columns, hcolumns, filter, hfilter, limit, hlimit, fields, hfields, _, hquery, _,
      hsubscription, rfl⟩
    refine ⟨⟨filter, none, [], columns, fields, limit⟩,
      ⟨hfilter, .none, rfl, hcolumns, hfields, hlimit, hquery, hsubscription⟩, ?_⟩
    simp [Parts.permission, Parts.descriptor, Parts.dependencies, Parts.presetUses]
  · rintro ⟨⟨filter, _, presets, columns, fields, limit⟩,
      ⟨hfilter, hlater, hpresets, hcolumns, hfields, hlimit, hquery, hsubscription⟩, rfl⟩
    cases hlater
    obtain rfl : [] = presets := Except.ok.inj hpresets
    refine ⟨columns, hcolumns, filter, hfilter, limit, hlimit, fields, hfields, (), hquery, (),
      hsubscription, ?_⟩
    simp [Parts.permission, Parts.descriptor, Parts.dependencies, Parts.presetUses]

theorem compileUpdate_eq_ok {c : UpdateClause} {p : CompiledPermission} :
    compileUpdate σ source table c = .ok p ↔
      ∃ x, (Clause.update c).Resolves σ source table x ∧ p = x.permission source table (.update c) := by
  simp only [compileUpdate, bind_eq_ok, within_eq_ok, pure_eq_ok, optionMapM_eq_ok, Predicate.compile_eq_ok]
  constructor
  · rintro ⟨columns, hcolumns, presets, hpresets, filter, hfilter, check?, hcheck, rfl⟩
    refine ⟨⟨filter, check?, presets, columns, [], none⟩,
      ⟨hfilter, hcheck, hpresets, hcolumns, rfl, rfl, trivial⟩, ?_⟩
    simp [Parts.permission, Parts.descriptor, Parts.dependencies, Parts.predicateUses, Parts.presetUses,
      Parts.set]
  · rintro ⟨⟨filter, check?, presets, columns, fields, _⟩,
      ⟨hfilter, hcheck, hpresets, hcolumns, hfields, -, -⟩, rfl⟩
    obtain rfl : [] = fields := Except.ok.inj hfields
    refine ⟨columns, hcolumns, presets, hpresets, filter, hfilter, check?, hcheck, ?_⟩
    simp [Parts.permission, Parts.descriptor, Parts.dependencies, Parts.predicateUses, Parts.presetUses,
      Parts.set]

theorem compileDelete_eq_ok {c : DeleteClause} {p : CompiledPermission} :
    compileDelete σ source table c = .ok p ↔
      ∃ x, (Clause.delete c).Resolves σ source table x ∧ p = x.permission source table (.delete c) := by
  simp only [compileDelete, bind_eq_ok, within_eq_ok, pure_eq_ok, Predicate.compile_eq_ok]
  constructor
  · rintro ⟨filter, hfilter, rfl⟩
    refine ⟨⟨filter, none, [], (.empty, []), [], none⟩,
      ⟨hfilter, .none, rfl, rfl, rfl, rfl, trivial⟩, ?_⟩
    simp [Parts.permission, Parts.descriptor, Parts.dependencies, Parts.presetUses]
  · rintro ⟨⟨filter, _, presets, columns, fields, _⟩,
      ⟨hfilter, hlater, hpresets, hcolumns, hfields, -, -⟩, rfl⟩
    -- a delete permission has nothing but its filter
    cases hlater
    obtain rfl : [] = presets := Except.ok.inj hpresets
    obtain rfl : [] = fields := Except.ok.inj hfields
    obtain rfl : (.empty, []) = columns := Except.ok.inj hcolumns
    refine ⟨filter, hfilter, ?_⟩
    simp [Parts.permission, Parts.descriptor, Parts.dependencies, Parts.presetUses]

/-- **A clause compiles exactly if it resolves**, and to what is put together from its parts. -/
theorem compile_eq_ok {clause : Clause} {p : CompiledPermission} :
    compile σ source table clause = .ok p ↔
      ∃ x, clause.Resolves σ source table x ∧ p = x.permission source table clause := by
  refine within_eq_ok.trans ?_
  cases clause with
  | insert c => exact compileInsert_eq_ok
  | select c => exact compileSelect_eq_ok
  | update c => exact compileUpdate_eq_ok
  | delete c => exact compileDelete_eq_ok

end Permission

end TableAccess
