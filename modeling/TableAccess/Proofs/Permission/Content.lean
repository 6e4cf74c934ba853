import TableAccess.Proofs.Permission.Mentions
import TableAccess.Proofs.Predicate.WellFormed
import TableAccess.Schema.Catalog

/-!
# What a descriptor says

A descriptor gives what its clause says with the names looked up. A column that may be written comes from the
request or from a preset, never from both.

* `ColumnSpec.names`: the columns that a column list stands for in a table of a catalog.
* `Writes`, `Selects`: what the descriptor of a clause that writes and of one that selects says.
* `Permission.compile_describes`: **what the descriptor of any clause says**, in any catalog.
-/

namespace TableAccess

/-! ## Columns of a catalog -/

namespace Catalog

/-- The names of the columns of a table, as they are declared. A table that is not there has none. -/
def columnNames (c : Catalog) (table : String) : List String :=
  match c.table? table with
  | none => []
  | some t => t.columns.map (·.name)

variable {c : Catalog} {table : String}

theorem map_fst_columns : (c.schema.columns table).map (·.1) = c.columnNames table := by
  simp only [schema, columnNames]
  cases c.table? table with
  | none => rfl
  | some t => exact List.map_map

/-- **A name is among the names of the columns exactly if it resolves as a column.** -/
theorem mem_columnNames {n : String} :
    n ∈ c.columnNames table ↔ ∃ t, c.schema.column? table n = some t := by
  show _ ↔ ∃ t, ((c.table? table).bind fun tb => (tb.column? n).bind fun col => some col.type) = some t
  unfold columnNames
  cases c.table? table with
  | none => exact ⟨nofun, fun ⟨_, h⟩ => by cases h⟩
  | some tb =>
    rw [← Option.isSome_iff_exists, Option.bind_some, Option.isSome_bind, Table.column?]
    simp [List.mem_map]

end Catalog

/-- **The columns that a column list stands for** in a table. -/
def ColumnSpec.names (catalog : Catalog) (table : String) : ColumnSpec → List String
  | .all => catalog.columnNames table
  | .listed names => names

/-! ## Descriptors -/

/-- **What a preset becomes** in its column, with the declared type of the column: a session variable as it
is spelled, or a literal of the type. -/
inductive Preset.Given (σ : Schema) (table : String) : String × Json → String × Preset → Prop
  | session {n s : String} {t : ColumnType} : σ.column? table n = some t →
    SessionVariable.isReference s = true → Given σ table (n, .str s) (n, .session ⟨s⟩ t)
  | literal {n : String} {v : Json} {t : ColumnType} : σ.column? table n = some t →
    ¬ Predicate.IsVariable v → t.Holds v → Given σ table (n, v) (n, .literal v t)

/-- **What a descriptor says of a clause that writes**: the presets one by one in the order of their columns,
and for the request the columns of the column list that no preset sets. -/
structure Writes (catalog : Catalog) (table : String) (spec : ColumnSpec) (given : Presets)
    (requested : SortedSet String) (set : SortedMap String Preset) : Prop where
  presets : List.Forall₂ (Preset.Given catalog.schema table) given.toList set.toList
  keys : set.keys = given.keys
  columns : ∀ n, n ∈ requested.toList ↔ n ∈ spec.names catalog table ∧ n ∉ given.keys
  disjoint : ∀ n ∈ requested.toList, n ∉ set.keys
  covered : ∀ n ∈ spec.names catalog table, n ∈ requested.toList ∨ n ∈ set.keys
  declared : ∀ n, n ∈ requested.toList ∨ n ∈ set.keys → ∃ t, catalog.schema.column? table n = some t

/-- **What a descriptor says of a clause that selects.** -/
structure Selects (catalog : Catalog) (table : String) (c : SelectClause) (d : SelectDescriptor) : Prop where
  columns : ∀ n, n ∈ d.columns.toList ↔ n ∈ c.columns.names catalog table
  declared : ∀ n ∈ d.columns.toList, ∃ t, catalog.schema.column? table n = some t
  computedFields : ∀ n, n ∈ d.computedFields.keys ↔ n ∈ c.computedFields
  scalars : ∀ f ∈ d.computedFields.toList, catalog.schema.computedField? table f.1 = some (.scalar f.2)
  limit : d.limit.map Int.ofNat = c.limit
  positive : ∀ n ∈ d.limit, 1 ≤ n
  flag : d.allowAggregations = c.allowAggregations
  rootFields : d.queryRootFields = c.queryRootFields ∧ d.subscriptionRootFields = c.subscriptionRootFields
  aggregates : ∀ l, l ∈ d.queryRootFields ∨ l ∈ d.subscriptionRootFields →
    .selectAggregate ∈ l → d.allowAggregations = true

/-- **What the descriptor of a clause says**, by the kind of the clause. -/
inductive Describes (catalog : Catalog) (table : String) : Clause → Descriptor → Prop
  | insert {c : InsertClause} {d : InsertDescriptor} :
    Writes catalog table (c.columns.getD .all) (c.set.getD .empty) d.columns d.set →
    d.backendOnly = c.backendOnly.getD false → Describes catalog table (.insert c) (.insert d)
  | select {c : SelectClause} {d : SelectDescriptor} : Selects catalog table c d →
    Describes catalog table (.select c) (.select d)
  /-- Without a check the filter must hold after the update too. -/
  | update {c : UpdateClause} {d : UpdateDescriptor} :
    Writes catalog table c.columns (c.set.getD .empty) d.columns d.set →
    (c.check = none → d.check = d.filter) → Describes catalog table (.update c) (.update d)
  | delete {c : DeleteClause} {d : DeleteDescriptor} : Describes catalog table (.delete c) (.delete d)

/-! ## Presets -/

namespace Preset

variable {σ : Schema} {table : String}

theorem Given.fst_eq {p : String × Json} {q : String × Preset} (h : Given σ table p q) : q.1 = p.1 := by
  cases h <;> rfl

theorem Given.declared {p : String × Json} {q : String × Preset} (h : Given σ table p q) :
    ∃ t, σ.column? table q.1 = some t := by
  cases h with
  | session ht | literal ht => exact ⟨_, ht⟩

theorem map_fst_of_given {l : List (String × Json)} {r : List (String × Preset)}
    (h : List.Forall₂ (Given σ table) l r) : r.map (·.1) = l.map (·.1) := by
  induction h with
  | nil => rfl
  | cons hpq _ ih => rw [List.map_cons, List.map_cons, ih, hpq.fst_eq]

/-- Presets that are looked up stay in order. -/
theorem toList_ofList_of_given {given : Presets} {resolved : List (String × Preset)}
    (h : List.Forall₂ (Given σ table) given.toList resolved) :
    (SortedMap.ofList resolved).toList = resolved := by
  have hkeys : (given.toList.map (·.1)).Pairwise fun a b => compare a b = .lt :=
    List.pairwise_map.2 given.ordered
  rw [← map_fst_of_given h] at hkeys
  exact SortedMap.toList_ofList (List.pairwise_map.1 hkeys)

end Preset

namespace Permission

variable {σ : Schema} {catalog : Catalog} {source table : String}

/-- **A preset that resolves is what its value stands for.** -/
theorem given_of_resolvePreset {p : String × Json} {q : String × Preset}
    (h : (within p.1 (resolvePreset σ table p.1 p.2)).map (fun preset => (p.1, preset)) = .ok q) :
    Preset.Given σ table p q := by
  obtain ⟨n, v⟩ := p
  obtain ⟨preset, hpreset, rfl⟩ := map_eq_ok.1 h
  obtain ⟨t, ht, ⟨x, hx, rfl⟩ | ⟨hx, hfits, rfl⟩⟩ := resolvePreset_eq_ok.1 (within_eq_ok.1 hpreset)
  · obtain ⟨rfl, href⟩ := Predicate.reference?_eq_some.1 hx
    exact .session ht href
  · refine .literal ht (fun hvariable => ?_) (ColumnType.fits_iff.1 hfits)
    obtain ⟨x, hx'⟩ := Predicate.isVariable_iff.1 hvariable
    rw [hx] at hx'
    cases hx'

theorem given_of_resolvePresets {given : Presets} {resolved : List (String × Preset)}
    (h : resolvePresets σ table given = .ok resolved) :
    List.Forall₂ (Preset.Given σ table) given.toList resolved :=
  (mapM_eq_ok.1 h).imp fun _ _ => given_of_resolvePreset

/-! ## Columns -/

/-- **A column list resolves to the columns that it stands for.** -/
theorem columns_of_resolveColumns {spec : ColumnSpec} {columns : SortedSet String × List Dependency}
    (h : resolveColumns catalog.schema source table spec = .ok columns) :
    columns.1 = .ofList (spec.names catalog table) := by
  cases spec with
  | all =>
    obtain rfl := Except.ok.inj h
    exact congrArg _ Catalog.map_fst_columns
  | listed names =>
    obtain ⟨_, -, h⟩ := bind_eq_ok.1 h
    rw [← pure_eq_ok.1 h]
    rfl

theorem declared_of_resolveColumns {spec : ColumnSpec} {columns : SortedSet String × List Dependency}
    (h : resolveColumns catalog.schema source table spec = .ok columns) {n : String}
    (hn : n ∈ spec.names catalog table) : ∃ t, catalog.schema.column? table n = some t := by
  cases spec with
  | all => exact Catalog.mem_columnNames.1 hn
  | listed names =>
    obtain ⟨_, hnames, -⟩ := bind_eq_ok.1 h
    obtain ⟨t, -, ht⟩ := ok_of_mem_mapM hnames hn
    exact ⟨t, columnType_eq_ok.1 ht⟩

theorem mem_withoutPresets {columns : SortedSet String} {set : SortedMap String Preset} {n : String} :
    n ∈ (withoutPresets columns set).toList ↔ n ∈ columns.toList ∧ n ∉ set.keys := by
  rw [withoutPresets, SortedSet.filter, List.mem_filter, Bool.not_eq_true', ← Bool.not_eq_true,
    SortedMap.contains_iff]

/-! ## Clauses -/

/-- What the presets and the column list of a clause that writes resolve to. -/
theorem writes_of_ok {spec : ColumnSpec} {given : Presets} {columns : SortedSet String × List Dependency}
    {resolved : List (String × Preset)}
    (hcolumns : resolveColumns catalog.schema source table spec = .ok columns)
    (hpresets : resolvePresets catalog.schema table given = .ok resolved) :
    Writes catalog table spec given (withoutPresets columns.1 (.ofList resolved)) (.ofList resolved) := by
  have hgiven := given_of_resolvePresets hpresets
  have hlist := Preset.toList_ofList_of_given hgiven
  have hkeys : (SortedMap.ofList resolved).keys = given.keys := by
    rw [SortedMap.keys, hlist, Preset.map_fst_of_given hgiven]
    rfl
  have hmem : ∀ n, n ∈ (withoutPresets columns.1 (.ofList resolved)).toList ↔
      n ∈ spec.names catalog table ∧ n ∉ given.keys := by
    intro n
    rw [mem_withoutPresets, hkeys, columns_of_resolveColumns hcolumns, SortedSet.mem_ofList]
  refine ⟨hlist.symm ▸ hgiven, hkeys, hmem, fun n hn => (mem_withoutPresets.1 hn).2, fun n hn => ?_, ?_⟩
  · by_cases hset : n ∈ given.keys
    · exact .inr (hkeys ▸ hset)
    · exact .inl ((hmem n).2 ⟨hn, hset⟩)
  · rintro n (hn | hn)
    · exact declared_of_resolveColumns hcolumns ((hmem n).1 hn).1
    · obtain ⟨q, hq, rfl⟩ := List.mem_map.1 hn
      rw [hlist] at hq
      obtain ⟨p, -, hpq⟩ := exists_of_mem_right hgiven hq
      exact hpq.declared

theorem scalarField_eq_ok {n : String} {t : ColumnType} :
    scalarField σ table n = .ok t ↔ σ.computedField? table n = some (.scalar t) := by
  unfold scalarField
  split
  next t' h => rw [h, Except.ok.injEq, Option.some.injEq, Returns.scalar.injEq]
  next h => exact ⟨nofun, fun h' => by rw [h] at h'; cases h'⟩
  next h => exact ⟨nofun, fun h' => by rw [h] at h'; cases h'⟩

theorem checkLimit_eq_ok {given : Option Int} {limit : Option Nat} (h : checkLimit given = .ok limit) :
    limit.map Int.ofNat = given ∧ ∀ n ∈ limit, 1 ≤ n := by
  cases given with
  | none =>
    obtain rfl := Except.ok.inj h
    exact ⟨rfl, nofun⟩
  | some n =>
    simp only [checkLimit] at h
    split at h
    next => cases h
    next hn =>
      obtain rfl := Except.ok.inj h
      refine ⟨congrArg some (Int.toNat_of_nonneg (by omega)), ?_⟩
      rintro _ ⟨⟩
      omega

theorem allowed_of_checkRootFields {allowAggregations : Bool} {fields : Option (List RootField)}
    (h : checkRootFields allowAggregations fields = .ok ()) {l : List RootField} (hl : l ∈ fields)
    (haggregate : .selectAggregate ∈ l) : allowAggregations = true := by
  rw [Option.mem_def.1 hl, checkRootFields] at h
  split at h
  next => cases h
  next hnot => simpa [haggregate] using hnot

/-- What the parts of a clause that selects resolve to. -/
theorem selects_of_resolves {c : SelectClause} {x : Parts}
    (h : (Clause.select c).Resolves catalog.schema source table x) {d : SelectDescriptor}
    (hd : x.descriptor source table (.select c) = .select d) : Selects catalog table c d := by
  obtain rfl := Descriptor.select.inj hd
  have hcolumns : ∀ n, n ∈ x.columns.1.toList ↔ n ∈ c.columns.names catalog table := by
    intro n
    rw [columns_of_resolveColumns h.columns, SortedSet.mem_ofList]
    rfl
  have hlimit := checkLimit_eq_ok h.limit
  refine ⟨hcolumns, fun n hn => ?_, fun n => ?_, fun f hf => ?_, hlimit.1, hlimit.2, rfl, ⟨rfl, rfl⟩,
    fun l hl haggregate => ?_⟩
  · exact declared_of_resolveColumns h.columns ((hcolumns n).1 hn)
  · rw [SortedMap.mem_keys_ofList, names_of_resolveComputedFields h.computedFields, List.mem_eraseDups]
    rfl
  · obtain ⟨n, -, hn⟩ := mem_of_mapM h.computedFields (SortedMap.mem_of_mem_ofList hf)
    obtain ⟨t, ht, rfl⟩ := map_eq_ok.1 hn
    exact scalarField_eq_ok.1 ht
  · obtain ⟨hquery, hsubscription⟩ := h.rootFields
    rcases hl with hl | hl
    · exact allowed_of_checkRootFields hquery hl haggregate
    · exact allowed_of_checkRootFields hsubscription hl haggregate

/-- **The descriptor of a clause says what the clause does**: in any catalog its columns are those of the
column list that no preset sets, its presets and computed fields those of the clause with their declared types,
and its limit and root fields those of the clause. -/
theorem compile_describes {clause : Clause} {p : CompiledPermission}
    (h : compile catalog.schema source table clause = .ok p) :
    Describes catalog table clause p.descriptor := by
  obtain ⟨x, hx, rfl⟩ := compile_eq_ok.1 h
  cases clause with
  | insert c => exact .insert (writes_of_ok hx.columns hx.presets) rfl
  | select c => exact .select (selects_of_resolves hx rfl)
  | update c =>
    refine .update (writes_of_ok hx.columns hx.presets) fun hcheck => ?_
    have hlater : Option.Rel _ c.check x.laterCheck := hx.laterCheck
    have hnone : x.laterCheck = none := by
      rw [hcheck] at hlater
      generalize x.laterCheck = check? at hlater
      cases hlater
      rfl
    show (x.laterCheck.map (·.expr)).getD x.predicate.expr = x.predicate.expr
    rw [hnone]
    rfl
  | delete c => exact .delete

/-- Of the columns of authors, one of which is declared twice, the request gives what the session and a
literal do not. -/
theorem compile_describes_authors :
    let author : Table :=
      ⟨"author", [⟨"id", .integer⟩, ⟨"name", .text⟩, ⟨"pseudonym", .text⟩, ⟨"name", .integer⟩], [], []⟩
    let catalog := Catalog.ofTables [author]
    let clause : Clause := .insert {
      check := .emptyObject
      set := some (.ofList [("name", .str "anonymous"), ("id", .str "X-Hasura-Id")])
      columns := none
      backendOnly := none }
    ∃ p, compile catalog.schema "default" "author" clause = .ok p ∧
      p.descriptor.columns? = some (.ofList ["pseudonym"]) ∧ Describes catalog "author" clause p.descriptor := by
  intro author catalog clause
  have hok : (compile catalog.schema "default" "author" clause).isOk = true := by decide +kernel
  have hrequested : ∀ p ∈ (compile catalog.schema "default" "author" clause).toOption,
      p.descriptor.columns? = some (.ofList ["pseudonym"]) := by
    decide +kernel
  obtain ⟨p, hp⟩ := exists_of_isOk hok
  exact ⟨p, hp, hrequested p (by rw [hp]; rfl), compile_describes hp⟩

end Permission

end TableAccess
