import TableAccess.Proofs.Permission.Parts
import TableAccess.Proofs.Predicate.Widening

/-!
# Permissions when integers become numbers

Integer columns and integer computed fields of a schema may be declared anew as numbers. Every clause that
compiled then compiles again, and to the same permission but for the types that are recorded in it.

* `Descriptor.widened`: the descriptor with the types of widened fields changed.
* `Permission.compile_widened`: **integers may become numbers**: what compiled compiles to the widened
  descriptor, with the same dependencies.
-/

namespace TableAccess

/-- A preset with the type of its column changed if that is widened. -/
def Preset.widened (w : Widening) (table column : String) : Preset → Preset
  | literal value t => literal value (w.columnType table column t)
  | session v t => session v (w.columnType table column t)

/-- **The descriptor of a permission on `table` with the types of widened fields changed**, and nothing
else. -/
def Descriptor.widened (w : Widening) (table : String) : Descriptor → Descriptor
  | insert d => insert { d with
      check := d.check.widened w table
      set := d.set.mapWithKey (Preset.widened w table) }
  | select d => select { d with
      filter := d.filter.widened w table
      computedFields := d.computedFields.mapWithKey (w.fieldType table) }
  | update d => update { d with
      filter := d.filter.widened w table
      check := d.check.widened w table
      set := d.set.mapWithKey (Preset.widened w table) }
  | delete d => delete { d with filter := d.filter.widened w table }

/-- The parts with the types of widened fields changed. -/
def Parts.widened (w : Widening) (table : String) (x : Parts) : Parts where
  predicate := Predicate.widened w table x.predicate
  laterCheck := x.laterCheck.map (Predicate.widened w table)
  presets := x.presets.map fun p => (p.1, p.2.widened w table p.1)
  columns := x.columns
  computedFields := x.computedFields.map fun f => (f.1, w.fieldType table f.1 f.2)
  limit := x.limit

namespace Permission

variable {σ τ : Schema} {w : Widening} {source table : String}

/-! ## Parts -/

theorem resolveColumns_widened (hτ : σ.Widens τ w) {spec : ColumnSpec}
    {columns : SortedSet String × List Dependency} (h : resolveColumns σ source table spec = .ok columns) :
    resolveColumns τ source table spec = .ok columns := by
  cases spec with
  | all => rwa [resolveColumns, hτ.columns]
  | listed names =>
    simp only [resolveColumns, bind_eq_ok, pure_eq_ok] at h ⊢
    obtain ⟨types, htypes, rfl⟩ := h
    obtain ⟨types', htypes'⟩ := exists_mapM_eq_ok (f := columnType τ table) fun n hn => by
      obtain ⟨t, -, ht⟩ := ok_of_mem_mapM htypes hn
      exact ⟨_, columnType_eq_ok.2 (by rw [hτ.column?, columnType_eq_ok.1 ht]; rfl)⟩
    exact ⟨types', htypes', rfl⟩

theorem resolvePreset_widened (hτ : σ.Widens τ w) {column : String} {value : Json} {preset : Preset}
    (h : resolvePreset σ table column value = .ok preset) :
    resolvePreset τ table column value = .ok (preset.widened w table column) := by
  obtain ⟨t, ht, hpreset⟩ := resolvePreset_eq_ok.1 h
  refine resolvePreset_eq_ok.2 ⟨w.columnType table column t, by rw [hτ.column?, ht]; rfl, ?_⟩
  obtain ⟨v, hv, rfl⟩ | ⟨hnone, hfits, rfl⟩ := hpreset
  · exact .inl ⟨v, hv, rfl⟩
  · exact .inr ⟨hnone, (Predicate.suits_widened t _).fits value hfits, rfl⟩

theorem resolvePresets_widened (hτ : σ.Widens τ w) {presets : Presets} {resolved : List (String × Preset)}
    (h : resolvePresets σ table presets = .ok resolved) :
    resolvePresets τ table presets = .ok (resolved.map fun p => (p.1, p.2.widened w table p.1)) := by
  refine mapM_eq_ok.2 (List.forall₂_map_right_iff.2 ((mapM_eq_ok.1 h).imp fun p q hpq => ?_))
  simp only [map_eq_ok, within_eq_ok] at hpq ⊢
  obtain ⟨preset, hpreset, rfl⟩ := hpq
  exact ⟨_, resolvePreset_widened hτ hpreset, rfl⟩

theorem presetsUses_widened (w : Widening) (presets : List (String × Preset)) :
    presetsUses source table (presets.map fun p => (p.1, p.2.widened w table p.1)) =
      presetsUses source table presets := by
  have huse : ∀ p : String × Preset,
      presetUses source table (p.1, p.2.widened w table p.1) = presetUses source table p := by
    rintro ⟨column, preset⟩
    cases preset <;> rfl
  simp only [presetsUses, List.foldr_map, huse]

theorem resolveComputedFields_widened (hτ : σ.Widens τ w) {names : List String}
    {fields : List (String × ColumnType)} (h : resolveComputedFields σ table names = .ok fields) :
    resolveComputedFields τ table names = .ok (fields.map fun f => (f.1, w.fieldType table f.1 f.2)) := by
  refine mapM_eq_ok.2 (List.forall₂_map_right_iff.2 ((mapM_eq_ok.1 h).imp fun n f hnf => ?_))
  simp only [map_eq_ok] at hnf ⊢
  obtain ⟨t, ht, rfl⟩ := hnf
  refine ⟨w.fieldType table n t, ?_, rfl⟩
  unfold scalarField at ht ⊢
  rw [hτ.computedField?]
  cases hf : σ.computedField? table n with
  | none => rw [hf] at ht; cases ht
  | some returns =>
    rw [hf] at ht
    cases returns with
    | scalar t' => cases ht; rfl
    | rows remote => cases ht

end Permission

/-! ## What is put together from the parts -/

namespace Parts

variable (w : Widening) (source table : String) (x : Parts)

theorem predicateUses_widened : (x.widened w table).predicateUses = x.predicateUses := by
  unfold predicateUses widened
  cases x.laterCheck <;> rfl

theorem presetUses_widened : (x.widened w table).presetUses source table = x.presetUses source table :=
  Permission.presetsUses_widened w x.presets

theorem dependencies_widened :
    (x.widened w table).dependencies source table = x.dependencies source table := by
  have hfields : (x.widened w table).computedFields.map
      (fun f => (⟨source, table, .computedField f.1, .untyped⟩ : Dependency)) =
        x.computedFields.map fun f => ⟨source, table, .computedField f.1, .untyped⟩ := by
    simp [widened]
  rw [dependencies, dependencies, predicateUses_widened, presetUses_widened, hfields]
  rfl

theorem set_widened : (x.widened w table).set = x.set.mapWithKey (Preset.widened w table) :=
  SortedMap.ofList_mapWithKey (Preset.widened w table) x.presets

/-- Presets are on the same columns as before. -/
theorem withoutPresets_widened (columns : SortedSet String) :
    Permission.withoutPresets columns (x.widened w table).set = Permission.withoutPresets columns x.set := by
  have hcontains : ∀ c, (x.widened w table).set.contains c = x.set.contains c := fun c => by
    rw [set_widened, SortedMap.contains, SortedMap.get?_mapWithKey, Option.isSome_map]
    rfl
  unfold Permission.withoutPresets
  simp only [hcontains]

theorem descriptor_widened (clause : Clause) :
    (x.widened w table).descriptor source table clause =
      (x.descriptor source table clause).widened w table := by
  cases clause with
  | insert c =>
    simp only [descriptor, Descriptor.widened, predicateUses_widened, presetUses_widened,
      ← set_widened]
    rw [← withoutPresets_widened w table x x.columns.1]
    rfl
  | select c =>
    simp only [descriptor, Descriptor.widened, predicateUses_widened,
      ← SortedMap.ofList_mapWithKey (w.fieldType table)]
    rfl
  | update c =>
    simp only [descriptor, Descriptor.widened, predicateUses_widened, presetUses_widened,
      ← set_widened]
    rw [← withoutPresets_widened w table x x.columns.1]
    cases hlater : x.laterCheck <;> simp [widened, hlater, Predicate.widened]
  | delete c =>
    simp only [descriptor, Descriptor.widened, predicateUses_widened]
    rfl

end Parts

namespace Permission

variable {σ τ : Schema} {w : Widening} {source table : String}

/-! ## The permission -/

theorem laterCheck_widened (hτ : σ.Widens τ w) {doc : Option Json} {check : Option CompiledPredicate}
    (h : Option.Rel (Predicate.Compiles σ source table) doc check) :
    Option.Rel (Predicate.Compiles τ source table) doc (check.map (Predicate.widened w table)) := by
  cases h with
  | none => exact .none
  | some hq => exact .some (hq.widened hτ)

/-- **A clause resolves to the widened parts.** -/
theorem resolves_widened (hτ : σ.Widens τ w) {clause : Clause} {x : Parts}
    (h : clause.Resolves σ source table x) : clause.Resolves τ source table (x.widened w table) where
  predicate := h.predicate.widened hτ
  laterCheck := laterCheck_widened hτ h.laterCheck
  presets := resolvePresets_widened hτ h.presets
  columns := resolveColumns_widened hτ h.columns
  computedFields := resolveComputedFields_widened hτ h.computedFields
  limit := h.limit
  rootFields := h.rootFields

/-- **Integers may become numbers**: a clause that compiled compiles to the same permission, with no more
changed than the types that are recorded of widened fields. -/
theorem compile_widened (hτ : σ.Widens τ w) {clause : Clause} {p : CompiledPermission}
    (h : compile σ source table clause = .ok p) :
    compile τ source table clause = .ok ⟨p.descriptor.widened w table, p.dependencies⟩ := by
  obtain ⟨x, hx, rfl⟩ := compile_eq_ok.1 h
  refine compile_eq_ok.2 ⟨x.widened w table, resolves_widened hτ hx, ?_⟩
  rw [Parts.permission, Parts.permission, Parts.descriptor_widened, Parts.dependencies_widened]

/-- The year of birth of authors may become a number, also where it is compared with a string. -/
theorem compile_widened_authors :
    let c := Catalog.empty.add ⟨"author", [⟨"id", .integer⟩, ⟨"born", .integer⟩], [], []⟩
    let w : Widening := ⟨fun table name => table == "author" && name == "born", fun _ _ => false⟩
    let clause : Clause := .delete ⟨.obj [("born", .obj [("_gt", .str "+01900")])]⟩
    ∃ p, compile c.schema "default" "author" clause = .ok p ∧
      compile (c.widened w).schema "default" "author" clause =
        .ok ⟨p.descriptor.widened w "author", p.dependencies⟩ := by
  intro c w clause
  have hok : (compile c.schema "default" "author" clause).isOk = true := by decide +kernel
  obtain ⟨p, hp⟩ := exists_of_isOk hok
  exact ⟨p, hp, compile_widened (c.widens w) hp⟩

end Permission

end TableAccess
