import TableAccess.Proofs.Permission.Parts
import TableAccess.Proofs.Predicate.Agreement
import TableAccess.Proofs.Sorted
import TableAccess.Schema.Catalog

/-!
# Permissions depend on nothing else

The dependencies of a compiled permission name everything in the schema that compiling has looked at,
but for the columns of the table where the clause takes all of them.

* `Permission.compile_of_agrees`: **against any schema that agrees on its dependencies a permission
  compiles to the same**, and to the same dependencies.
-/

namespace TableAccess

namespace Permission

variable {σ τ : Schema} {source table : String}

theorem columnType_of_agrees {name : String} {r : Reason}
    (h : Dependency.Agrees σ τ ⟨source, table, .column name, r⟩) :
    columnType τ table name = columnType σ table name := by
  obtain ⟨hcolumn, hrelationship, -⟩ := h name rfl
  simp only at hcolumn hrelationship
  rw [columnType, columnType, hcolumn, hrelationship]

theorem resolveColumns_of_agrees {spec : ColumnSpec} {columns : SortedSet String × List Dependency}
    (h : resolveColumns σ source table spec = .ok columns) (hd : ∀ d ∈ columns.2, d.Agrees σ τ)
    (hall : spec = .all → ∀ n, n ∈ (τ.columns table).map (·.1) ↔ n ∈ (σ.columns table).map (·.1)) :
    resolveColumns τ source table spec = .ok columns := by
  cases spec with
  | all =>
    obtain rfl := Except.ok.inj h
    rw [resolveColumns, SortedSet.ofList_congr (hall rfl)]
  | listed names =>
    simp only [resolveColumns, bind_eq_ok, pure_eq_ok] at h ⊢
    obtain ⟨types, htypes, rfl⟩ := h
    refine ⟨types, mapM_eq_ok.2 (forall₂_of_mem (mapM_eq_ok.1 htypes) fun n hn t _ ht => ?_), rfl⟩
    -- a column that is listed by name is depended on
    rw [columnType_of_agrees (hd _ (List.mem_map.2 ⟨n, List.mem_eraseDups.2 hn, rfl⟩))]
    exact ht

theorem resolvePreset_congr {column : String}
    (h : columnType τ table column = columnType σ table column) (value : Json) :
    resolvePreset τ table column value = resolvePreset σ table column value := by
  unfold resolvePreset
  rw [h]

/-- The column of a preset is depended on. -/
theorem exists_mem_presetUses (source table : String) (p : String × Preset) :
    ∃ r, ⟨source, table, .column p.1, r⟩ ∈ (presetUses source table p).dependencies := by
  obtain ⟨column, preset⟩ := p
  cases preset <;> exact ⟨_, List.mem_singleton_self _⟩

theorem resolvePresets_of_agrees {presets : Presets} {resolved : List (String × Preset)}
    (h : resolvePresets σ table presets = .ok resolved)
    (hd : ∀ d ∈ (presetsUses source table resolved).dependencies, d.Agrees σ τ) :
    resolvePresets τ table presets = .ok resolved := by
  refine mapM_eq_ok.2 (forall₂_of_mem (mapM_eq_ok.1 h) fun p _ q hq hp => ?_)
  obtain ⟨r, hr⟩ := exists_mem_presetUses source table q
  obtain ⟨preset, hpreset, rfl⟩ := map_eq_ok.1 hp
  have hcolumn := columnType_of_agrees (hd _ (mem_presetsUses.2 ⟨_, hq, hr⟩))
  rw [resolvePreset_congr hcolumn]
  exact hp

theorem resolveComputedFields_of_agrees {names : List String} {fields : List (String × ColumnType)}
    (h : resolveComputedFields σ table names = .ok fields)
    (hd : ∀ f ∈ fields, Dependency.Agrees σ τ ⟨source, table, .computedField f.1, .untyped⟩) :
    resolveComputedFields τ table names = .ok fields := by
  refine mapM_eq_ok.2 (forall₂_of_mem (mapM_eq_ok.1 h) fun n _ f hf hn => ?_)
  obtain ⟨t, ht, rfl⟩ := map_eq_ok.1 hn
  have hfield : τ.computedField? table n = σ.computedField? table n := (hd _ hf n rfl).2.2
  rw [scalarField, hfield]
  exact hn

/-- **A permission depends on nothing but its dependencies.** Against a schema that agrees on them it
compiles to the same, if the table has the same columns where the clause takes all of them. -/
theorem compile_of_agrees {clause : Clause} {p : CompiledPermission}
    (h : compile σ source table clause = .ok p) (hd : ∀ d ∈ p.dependencies, d.Agrees σ τ)
    (hall : clause.columnSpec = .all →
      ∀ n, n ∈ (τ.columns table).map (·.1) ↔ n ∈ (σ.columns table).map (·.1)) :
    compile τ source table clause = .ok p := by
  obtain ⟨x, hx, rfl⟩ := compile_eq_ok.1 h
  refine compile_eq_ok.2 ⟨x, ⟨?_, ?_, ?_, ?_, ?_, hx.limit, hx.rootFields⟩, rfl⟩
  · exact hx.predicate.of_agrees fun d h => hd d (Parts.mem_of_predicate h)
  · refine optionRel_of_mem hx.laterCheck fun doc _ q hq hcheck => ?_
    exact hcheck.of_agrees fun d h => hd d (Parts.mem_of_laterCheck hq h)
  · exact resolvePresets_of_agrees hx.presets fun d h => hd d (Parts.mem_of_presets h)
  · exact resolveColumns_of_agrees hx.columns (fun d h => hd d (Parts.mem_of_columns h)) hall
  · exact resolveComputedFields_of_agrees hx.computedFields fun f hf =>
      hd _ (Parts.mem_of_computedField hf)

/-- All columns of authors are selected, by the place of their publisher. A schema in which the names of
authors are integers, and which has another table, gives the same permission. -/
theorem compile_of_agrees_authors :
    let publisher : Table := ⟨"publisher", [⟨"id", .integer⟩, ⟨"place", .text⟩], [], []⟩
    let author : ColumnType → Table := fun t =>
      ⟨"author", [⟨"id", .integer⟩, ⟨"name", t⟩], [⟨"publisher", ⟨"publisher", .one⟩⟩], []⟩
    let σ := (Catalog.ofTables [publisher, author .text]).schema
    let τ := (Catalog.ofTables [publisher, author .integer, ⟨"place", [], [], []⟩]).schema
    let clause : Clause := .select
      ⟨.all, .obj [("publisher", .obj [("place", .obj [("_eq", .str "Ghent")])])], none, false, [],
        none, none⟩
    ∃ p, compile σ "default" "author" clause = .ok p ∧ (∀ d ∈ p.dependencies, d.Agrees σ τ) ∧
      (clause.columnSpec = .all →
        ∀ n, n ∈ (τ.columns "author").map (·.1) ↔ n ∈ (σ.columns "author").map (·.1)) ∧
      compile τ "default" "author" clause = .ok p := by
  intro publisher author σ τ clause
  have hagree : ∀ p ∈ (compile σ "default" "author" clause).toOption, ∀ d ∈ p.dependencies,
      d.Agrees σ τ := by
    decide +kernel
  have hnames : (τ.columns "author").map (·.1) = (σ.columns "author").map (·.1) := by decide +kernel
  have hok : (compile σ "default" "author" clause).isOk = true := by decide +kernel
  obtain ⟨p, hp⟩ := exists_of_isOk hok
  have hd : ∀ d ∈ p.dependencies, d.Agrees σ τ := hagree p (by rw [hp]; rfl)
  have hall : clause.columnSpec = .all →
      ∀ n, n ∈ (τ.columns "author").map (·.1) ↔ n ∈ (σ.columns "author").map (·.1) := by
    intro _ n
    rw [hnames]
  exact ⟨p, hp, hd, hall, compile_of_agrees hp hd hall⟩

end Permission

end TableAccess
