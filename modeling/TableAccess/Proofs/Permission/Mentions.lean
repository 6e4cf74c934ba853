import TableAccess.Proofs.Permission.Parts
import TableAccess.Proofs.Predicate.Mentions
import TableAccess.Proofs.Session.Variable
import TableAccess.Proofs.Sorted
import TableAccess.Schema.Catalog

/-!
# What a permission mentions

The dependencies and the required headers of a compiled permission are gathered part by part, in an order
that is not that of the checks. They can be read off the compiled predicates and the lists of the clause.

* `Clause.mentionedDependencies`, `Clause.mentionedVariables`: what a clause mentions, with its predicates
  compiled.
* `Permission.compile_mentions`: **a permission depends on what it mentions, in order, and requires the
  session variables that it mentions.**
-/

namespace TableAccess

namespace Descriptor

/-- The predicate on the rows that are read or, for an insert permission, written. -/
def predicate : Descriptor → Expr
  | insert d => d.check
  | select d => d.filter
  | update d => d.filter
  | delete d => d.filter

/-- The predicate on rows after an update. -/
def laterCheck? : Descriptor → Option Expr
  | update d => some d.check
  | _ => none

end Descriptor

namespace Clause

/-- The compiled predicates that the clause gives. A check that an update leaves out is none of them,
though the filter stands in its place. -/
def predicatesOf (clause : Clause) (d : Descriptor) : List Expr :=
  d.predicate :: if clause.laterCheck.isSome then d.laterCheck?.toList else []

/-- The columns that the clause lists by name, each once, as they are first mentioned. -/
def listedColumns (clause : Clause) : List String :=
  match clause.columnSpec with
  | .all => []
  | .listed names => names.eraseDups

/-- Why the column of a preset is depended on. -/
def presetReason (value : Json) : Reason :=
  if value.reference?.isSome then .sessionVariable else .typeDerived

/-- **The dependencies that a clause mentions**: its table, those of its predicates, the columns of its
presets, and the columns and computed fields that it lists. -/
def mentionedDependencies (source table : String) (clause : Clause) (d : Descriptor) : List Dependency :=
  [⟨source, table, .table, .table⟩] ++
    (clause.predicatesOf d).flatMap (fun e => e.dependencies source table) ++
    clause.presets.toList.map (fun p => ⟨source, table, .column p.1, presetReason p.2⟩) ++
    clause.listedColumns.map (fun n => ⟨source, table, .column n, .untyped⟩) ++
    clause.computedFields.eraseDups.map fun n => ⟨source, table, .computedField n, .untyped⟩

/-- **The session variables that a clause mentions.** The presets of an update come before its
predicates. -/
def mentionedVariables (clause : Clause) (d : Descriptor) : List SessionVariable :=
  let predicates := (clause.predicatesOf d).flatMap Expr.sessionVariables
  let presets := clause.presets.toList.filterMap fun p => p.2.reference?
  match clause with
  | .update _ => presets ++ predicates
  | _ => predicates ++ presets

end Clause

namespace Permission

variable {σ : Schema} {source table : String}

/-! ## The parts -/

theorem presetUses_of_ok {p : String × Json} {q : String × Preset}
    (h : (within p.1 (resolvePreset σ table p.1 p.2)).map (fun preset => (p.1, preset)) = .ok q) :
    presetUses source table q =
      ⟨[⟨source, table, .column p.1, Clause.presetReason p.2⟩], p.2.reference?.toList⟩ := by
  obtain ⟨preset, hpreset, rfl⟩ := map_eq_ok.1 h
  obtain ⟨t, -, ⟨v, hv, rfl⟩ | ⟨hv, -, rfl⟩⟩ := resolvePreset_eq_ok.1 (within_eq_ok.1 hpreset)
  · rw [Clause.presetReason, hv]
    rfl
  · rw [Clause.presetReason, hv]
    rfl

/-- **Presets use what they mention**, one column each. -/
theorem presetsUses_eq {presets : Presets} {resolved : List (String × Preset)}
    (h : resolvePresets σ table presets = .ok resolved) : presetsUses source table resolved =
      ⟨presets.toList.map fun p => ⟨source, table, .column p.1, Clause.presetReason p.2⟩,
        presets.toList.filterMap fun p => p.2.reference?⟩ := by
  have hall := mapM_eq_ok.1 h
  clear h
  generalize presets.toList = l at hall
  induction hall with
  | nil => rfl
  | @cons p q l resolved hpq _ ih =>
    show presetUses source table q ++ presetsUses source table resolved = _
    rw [presetUses_of_ok hpq, ih, List.map_cons, List.filterMap_cons]
    cases p.2.reference? <;> rfl

theorem listed_of_resolveColumns {spec : ColumnSpec} {columns : SortedSet String × List Dependency}
    (h : resolveColumns σ source table spec = .ok columns) : columns.2 =
      (match spec with
        | .all => []
        | .listed names => names.eraseDups).map fun n => ⟨source, table, .column n, .untyped⟩ := by
  cases spec with
  | all =>
    obtain rfl := Except.ok.inj h
    rfl
  | listed names =>
    obtain ⟨_, -, h⟩ := bind_eq_ok.1 h
    rw [← pure_eq_ok.1 h]

theorem names_of_resolveComputedFields {names : List String} {fields : List (String × ColumnType)}
    (h : resolveComputedFields σ table names = .ok fields) : fields.map (·.1) = names.eraseDups := by
  have hall := mapM_eq_ok.1 h
  clear h
  generalize names.eraseDups = l at hall
  induction hall with
  | nil => rfl
  | cons hf _ ih =>
    obtain ⟨t, -, rfl⟩ := map_eq_ok.1 hf
    rw [List.map_cons, ih]

/-- The compiled predicates of a clause use what they mention. -/
theorem predicateUses_eq {clause : Clause} {x : Parts} (h : clause.Resolves σ source table x) :
    x.predicateUses =
      ⟨(clause.predicatesOf (x.descriptor source table clause)).flatMap
          fun e => e.dependencies source table,
        (clause.predicatesOf (x.descriptor source table clause)).flatMap Expr.sessionVariables⟩ := by
  obtain ⟨predicate, check, presets, columns, fields, limit⟩ := x
  have hpredicate := h.predicate.uses_eq
  have hlater := h.laterCheck
  -- only an update has a later check, and where it is left out the filter is not taken twice
  cases clause with
  | update c =>
    simp only [Clause.predicatesOf]
    generalize (Clause.update c).laterCheck = doc at hlater
    cases hlater with
    | none =>
      simp only [Parts.predicateUses_none, Parts.descriptor, Descriptor.predicate, Option.isSome_none,
        Bool.false_eq_true, if_false, List.flatMap_cons, List.flatMap_nil, List.append_nil]
      exact hpredicate
    | @some _ q hq =>
      show predicate.uses ++ q.uses = _
      rw [hpredicate, hq.uses_eq]
      simp only [Parts.descriptor, Descriptor.predicate, Descriptor.laterCheck?, Option.map_some,
        Option.getD_some, Option.isSome_some, if_true, Option.toList_some, List.flatMap_cons,
        List.flatMap_nil, List.append_nil]
      rfl
  | insert c | select c | delete c =>
    cases hlater
    simp only [Parts.predicateUses_none, Clause.predicatesOf, Clause.laterCheck, Parts.descriptor,
      Descriptor.predicate, Option.isSome_none, Bool.false_eq_true, if_false, List.flatMap_cons,
      List.flatMap_nil, List.append_nil]
    exact hpredicate

/-! ## The permission -/

theorem dependencies_of_resolves {clause : Clause} {x : Parts} (h : clause.Resolves σ source table x) :
    x.dependencies source table =
      clause.mentionedDependencies source table (x.descriptor source table clause) := by
  have hfields :
      x.computedFields.map (fun f => (⟨source, table, .computedField f.1, .untyped⟩ : Dependency)) =
        clause.computedFields.eraseDups.map fun n => ⟨source, table, .computedField n, .untyped⟩ := by
    rw [← names_of_resolveComputedFields h.computedFields, List.map_map]
    rfl
  rw [Parts.dependencies, Permission.dependencies, predicateUses_eq h, Parts.presetUses,
    presetsUses_eq h.presets, listed_of_resolveColumns h.columns, hfields]
  simp only [Clause.mentionedDependencies, Clause.listedColumns, List.cons_append, List.nil_append,
    List.append_assoc]

theorem requiredHeaders_of_resolves {clause : Clause} {x : Parts} (h : clause.Resolves σ source table x) :
    (x.descriptor source table clause).requiredHeaders =
      .ofList (clause.mentionedVariables (x.descriptor source table clause)) := by
  have hpredicates := congrArg Uses.sessionVariables (predicateUses_eq h)
  have hpresets : (presetsUses source table x.presets).sessionVariables = _ :=
    congrArg Uses.sessionVariables (presetsUses_eq h.presets)
  cases clause with
  | insert c =>
    show SortedSet.ofList
      (x.predicateUses.sessionVariables ++ (x.presetUses source table).sessionVariables) = _
    rw [hpredicates, Parts.presetUses, hpresets]
    rfl
  | update c =>
    show SortedSet.ofList
      ((x.presetUses source table).sessionVariables ++ x.predicateUses.sessionVariables) = _
    rw [hpredicates, Parts.presetUses, hpresets]
    rfl
  | select c | delete c =>
    -- these have no presets
    show SortedSet.ofList x.predicateUses.sessionVariables = .ofList (_ ++ [])
    rw [hpredicates, List.append_nil]

/-- **A permission depends on what it mentions, in order**, and requires the session variables that it
mentions, each in its first spelling. -/
theorem compile_mentions {clause : Clause} {p : CompiledPermission}
    (h : compile σ source table clause = .ok p) :
    p.descriptor.kind = clause.kind ∧
      p.dependencies = clause.mentionedDependencies source table p.descriptor ∧
      p.descriptor.requiredHeaders = .ofList (clause.mentionedVariables p.descriptor) ∧
      ∀ v, p.descriptor.requiredHeaders.contains v = true ↔
        ∃ w ∈ clause.mentionedVariables p.descriptor, v.same w = true := by
  obtain ⟨x, hx, rfl⟩ := compile_eq_ok.1 h
  have hheaders := requiredHeaders_of_resolves hx
  refine ⟨by cases clause <;> rfl, dependencies_of_resolves hx, hheaders, fun v => ?_⟩
  show (x.descriptor source table clause).requiredHeaders.contains v = true ↔ _
  simp only [hheaders, SortedSet.contains_ofList, SessionVariable.compare_eq_iff_same]
  rfl

/-- The names of authors that work for the publisher of the session may be changed. The session's own id
comes in two spellings, of which that of the preset is kept. -/
theorem compile_mentions_authors :
    let publisher : Table := ⟨"publisher", [⟨"id", .integer⟩, ⟨"place", .text⟩], [], []⟩
    let author : Table := ⟨"author", [⟨"id", .integer⟩, ⟨"name", .text⟩, ⟨"pseudonym", .text⟩],
      [⟨"publisher", ⟨"publisher", .one⟩⟩], []⟩
    let σ := (Catalog.ofTables [publisher, author]).schema
    let clause : Clause := .update {
      columns := .listed ["name", "id", "name"]
      set := some (.ofList [("id", .str "x-hasura-id")])
      filter := .obj [("id", .obj [("_in", .arr [.num (.int 7), .str "X-Hasura-Id"])]),
        ("publisher", .obj [("place", .obj [("_eq", .str "X-Hasura-Place")])])]
      check := some (.obj [("name", .obj [("_cneq", .str "pseudonym"), ("_neq", .str "x-hasura-place")])]) }
    let mentioned : List Dependency := [
      ⟨"default", "author", .table, .table⟩,
      ⟨"default", "author", .column "id", .typeDerived⟩,
      ⟨"default", "author", .relationship "publisher", .untyped⟩,
      ⟨"default", "publisher", .table, .table⟩,
      ⟨"default", "publisher", .column "place", .sessionVariable⟩,
      ⟨"default", "author", .column "pseudonym", .typeDerived⟩,
      ⟨"default", "author", .column "name", .sessionVariable⟩,
      ⟨"default", "author", .column "id", .sessionVariable⟩,
      ⟨"default", "author", .column "name", .untyped⟩,
      ⟨"default", "author", .column "id", .untyped⟩]
    let required := ["x-hasura-id", "X-Hasura-Place"]
    ∃ p, compile σ "default" "author" clause = .ok p ∧
      (p.dependencies = mentioned ∧ p.descriptor.requiredHeaders.toList.map (·.name) = required) ∧
      p.descriptor.kind = clause.kind ∧
      p.dependencies = clause.mentionedDependencies "default" "author" p.descriptor ∧
      p.descriptor.requiredHeaders = .ofList (clause.mentionedVariables p.descriptor) ∧
      ∀ v, p.descriptor.requiredHeaders.contains v = true ↔
        ∃ w ∈ clause.mentionedVariables p.descriptor, v.same w = true := by
  intro publisher author σ clause mentioned required
  have hok : (compile σ "default" "author" clause).isOk = true := by decide +kernel
  have hlists : ∀ p ∈ (compile σ "default" "author" clause).toOption,
      p.dependencies = mentioned ∧ p.descriptor.requiredHeaders.toList.map (·.name) = required := by
    decide +kernel
  obtain ⟨p, hp⟩ := exists_of_isOk hok
  exact ⟨p, hp, hlists p (by rw [hp]; rfl), compile_mentions hp⟩

end Permission

end TableAccess
