import TableAccess.Proofs.Cache.Rebuild
import TableAccess.Proofs.Permission.Parts
import TableAccess.Proofs.Predicate.Grounding
import TableAccess.Schema.Catalog
import TableAccess.Store.Transaction

/-!
# What permissions depend on is there

A permission compiles only if its table and all members of tables that it names are in the catalog of
its source. The table that a relationship leads to is depended on without being looked up: if it is not
in the catalog, the permission compiles all the same. In a catalog whose relationships lead to its own
tables nothing is missing.

* `Permission.compile_grounded`: the dependencies of a compiled permission.
* `CompiledPermission.Grounded`: what they are in a catalog.
* `PermissionCache.consistent_grounded`: **what a consistent permission depends on**, when it has just been
  compiled and when everything has been.
-/

namespace TableAccess

open Dependency (Grounded)

namespace Catalog

/-- **Every relationship leads to a table of the catalog.** -/
def IsClosed (c : Catalog) : Prop :=
  ∀ table n r, c.schema.relationship? table n = some r → c.schema.tableExists r.remoteTable = true

/-- What has members is a table. -/
theorem tableExists_of_resolves {c : Catalog} {d : Dependency} (h : d.Resolves c.schema) :
    c.schema.tableExists d.table = true := by
  obtain ⟨source, table, target, reason⟩ := d
  show (c.table? table).isSome = true
  cases htable : c.table? table with
  | some t => rfl
  | none => cases target <;> simp [Dependency.Resolves, schema, htable] at h

end Catalog

/-- **What the dependency names is there**, and its table is. -/
structure Dependency.Present (σ : Schema) (d : Dependency) : Prop where
  table : σ.tableExists d.table = true
  resolves : d.Resolves σ

/-- **The permission depends on what is in the catalog** of its source, but perhaps for tables that
relationships lead to. -/
structure CompiledPermission.Grounded (p : CompiledPermission) (source : String) (c : Catalog) : Prop where
  ofSource : ∀ d ∈ p.dependencies, d.source = source
  members : ∀ d ∈ p.dependencies, d.target ≠ .table → d.Present c.schema
  tables : ∀ d ∈ p.dependencies, d.target = .table →
    d.Present c.schema ∨ d.IsRemote c.schema p.dependencies
  closed : c.IsClosed → ∀ d ∈ p.dependencies, d.Present c.schema

namespace Permission

variable {σ : Schema} {source table : String}

/-! ## The parts -/

theorem grounded_presets {presets : Presets} {resolved : List (String × Preset)}
    (h : resolvePresets σ table presets = .ok resolved) :
    Grounded σ source (presetsUses source table resolved).dependencies := by
  refine .of_resolves fun d hd => ?_
  obtain ⟨q, hq, hd⟩ := mem_presetsUses.1 hd
  obtain ⟨p, -, hp⟩ := mem_of_mapM h hq
  obtain ⟨preset, hpreset, rfl⟩ := map_eq_ok.1 hp
  obtain ⟨t, ht, -⟩ := resolvePreset_eq_ok.1 (within_eq_ok.1 hpreset)
  have hcolumn : (σ.column? table p.1).isSome = true := Option.isSome_of_eq_some ht
  cases preset <;> obtain rfl := List.mem_singleton.1 hd <;> exact ⟨rfl, hcolumn⟩

theorem grounded_columns {spec : ColumnSpec} {columns : SortedSet String × List Dependency}
    (h : resolveColumns σ source table spec = .ok columns) : Grounded σ source columns.2 := by
  cases spec with
  | all =>
    obtain rfl := Except.ok.inj h
    exact .of_resolves nofun
  | listed names =>
    obtain ⟨types, htypes, h⟩ := bind_eq_ok.1 h
    obtain rfl := pure_eq_ok.1 h
    refine .of_resolves fun d hd => ?_
    obtain ⟨n, hn, rfl⟩ := List.mem_map.1 hd
    obtain ⟨t, -, ht⟩ := ok_of_mem_mapM htypes (List.mem_eraseDups.1 hn)
    exact ⟨rfl, Option.isSome_of_eq_some (columnType_eq_ok.1 ht)⟩

theorem grounded_computedFields {names : List String} {fields : List (String × ColumnType)}
    (h : resolveComputedFields σ table names = .ok fields) :
    Grounded σ source (fields.map fun f => ⟨source, table, .computedField f.1, .untyped⟩) := by
  refine .of_resolves fun d hd => ?_
  obtain ⟨f, hf, rfl⟩ := List.mem_map.1 hd
  obtain ⟨n, -, hn⟩ := mem_of_mapM h hf
  obtain ⟨t, ht, rfl⟩ := map_eq_ok.1 hn
  refine ⟨rfl, t, ?_⟩
  -- a field that returns rows is refused
  unfold scalarField at ht
  split at ht <;> cases ht
  assumption

theorem grounded_predicates {clause : Clause} {x : Parts} (h : clause.Resolves σ source table x) :
    Grounded σ source x.predicateUses.dependencies := by
  refine h.predicate.grounded.append ?_
  have hlater := h.laterCheck
  generalize clause.laterCheck = doc at hlater
  generalize x.laterCheck = check at hlater
  cases hlater with
  | none => exact .of_resolves nofun
  | some hcheck => exact hcheck.grounded

/-! ## The permission -/

/-- **A permission on a table that exists is grounded.** -/
theorem compile_grounded {clause : Clause} {p : CompiledPermission} (ht : σ.tableExists table = true)
    (h : compile σ source table clause = .ok p) : Grounded σ source p.dependencies := by
  obtain ⟨x, hx, rfl⟩ := compile_eq_ok.1 h
  have htable : Grounded σ source [⟨source, table, .table, .table⟩] := by
    refine .of_resolves fun d hd => ?_
    obtain rfl := List.mem_singleton.1 hd
    exact ⟨rfl, ht⟩
  have hpredicates := grounded_predicates hx
  have hpresets : Grounded σ source (x.presetUses source table).dependencies := grounded_presets hx.presets
  have hlisted := (grounded_columns hx.columns).append (grounded_computedFields hx.computedFields)
  exact htable.append ((hpredicates.append hpresets).append hlisted)

/-- In a catalog what is grounded is there, and the table that a relationship leads to is if all of them
are. -/
theorem grounded_of_catalog {p : CompiledPermission} {c : Catalog}
    (h : Grounded c.schema source p.dependencies) : p.Grounded source c where
  ofSource d hd := (h d hd).1
  members d hd hne := by
    rcases (h d hd).2 with hr | ⟨_, _, _, -, -, heq⟩
    · exact ⟨Catalog.tableExists_of_resolves hr, hr⟩
    · exact absurd (congrArg Dependency.target heq) hne
  tables d hd _ := (h d hd).2.imp_left fun hr => ⟨Catalog.tableExists_of_resolves hr, hr⟩
  closed hc d hd := by
    rcases (h d hd).2 with hr | ⟨table, n, r, -, hr, heq⟩
    · exact ⟨Catalog.tableExists_of_resolves hr, hr⟩
    · have hremote := hc table n r hr
      rw [heq]
      exact ⟨hremote, hremote⟩

end Permission

namespace PermissionCache

variable {c : PermissionCache}

/-! ## The cache -/

/-- What recording definitions leaves in the cache was there, or has been compiled. -/
theorem compiled_of_foldl_record {ds : List (PermissionId × Definition)} {c c' : PermissionCache}
    (hb : c'.backends = c.backends)
    (h : ∀ i q, c'.entries.get? i = some q → ∃ d, c.compile i d = .ok q.compiled) {i : PermissionId}
    {q : CachedPermission}
    (hq : (ds.foldl (fun c e => c.record e.1 e.2) c').entries.get? i = some q) :
    ∃ d, c.compile i d = .ok q.compiled := by
  induction ds generalizing c' with
  | nil => exact h i q hq
  | cons e ds ih =>
    refine ih ((backends_record c' e.1 e.2).trans hb) (fun j q hj => ?_) hq
    have hslot := congrArg Slot.entry (slot_record c' e.1 j e.2)
    by_cases hje : j = e.1
    · rw [if_pos hje, compile_congr e.1 hb] at hslot
      have hentry := hslot.symm.trans hj
      subst hje
      cases hcompile : c.compile e.1 e.2 with
      | error f => rw [hcompile] at hentry; cases hentry
      | ok p =>
        rw [hcompile] at hentry
        obtain rfl := Option.some.inj hentry
        exact ⟨e.2, hcompile⟩
    · rw [if_neg hje] at hslot
      exact h j q (hslot.symm.trans hj)

/-- **After a full rebuild whatever is in the cache has just been compiled.** -/
theorem compiled_of_rebuild {view : View} {xs : List Inconsistency} (h : (c.rebuild view .full).1 = .ok xs)
    {i : PermissionId} {q : CachedPermission} (hq : (c.rebuild view .full).2.get? i = some q) :
    ∃ d, c.compile i d = .ok q.compiled := by
  unfold rebuild at h hq
  cases hds : view.definitions with
  | error f => rw [hds] at h; cases h
  | ok ds =>
    rw [hds] at hq
    have hq : (ds.foldl (fun c e => c.record e.1 e.2) (ofBackends c.backends)).entries.get? i = some q := hq
    refine compiled_of_foldl_record ?_ (fun j q h => ?_) hq
    · rfl
    · cases h

/-- **What a consistent permission depends on.** Where every source has a catalog, a permission that compiles
depends on what is in the catalog of its source, but perhaps for tables that relationships lead to, and so
does all that is left in the cache when everything has been compiled again. -/
theorem consistent_grounded
    (hc : ∀ source σ, c.backends.get? source = some σ → ∃ catalog : Catalog, σ = catalog.schema) :
    (∀ i d p, c.compile i d = .ok p → ∃ catalog : Catalog,
      c.backends.get? i.source = some catalog.schema ∧ p.Grounded i.source catalog) ∧
    ∀ view xs, (c.rebuild view .full).1 = .ok xs → ∀ i q, (c.rebuild view .full).2.get? i = some q →
      ∃ catalog : Catalog, c.backends.get? i.source = some catalog.schema ∧
        q.compiled.Grounded i.source catalog := by
  have hcompile : ∀ i d p, c.compile i d = .ok p → ∃ catalog : Catalog,
      c.backends.get? i.source = some catalog.schema ∧ p.Grounded i.source catalog := by
    intro i d p h
    obtain ⟨σ, hσ, htable, hp⟩ := compile_eq_ok.1 h
    obtain ⟨catalog, rfl⟩ := hc i.source σ hσ
    exact ⟨catalog, hσ, Permission.grounded_of_catalog (Permission.compile_grounded htable hp)⟩
  refine ⟨hcompile, fun view xs h i q hq => ?_⟩
  obtain ⟨d, hd⟩ := compiled_of_rebuild h hq
  exact hcompile i d q.compiled hd

/-- Authors may be deleted by the place of their publisher. -/
theorem consistent_grounded_authors :
    let publisher : Table := ⟨"publisher", [⟨"place", .text⟩], [], []⟩
    let author : Table := ⟨"author", [⟨"id", .integer⟩], [⟨"publisher", ⟨"publisher", .one⟩⟩], []⟩
    let catalog := Catalog.ofTables [publisher, author]
    let c := ofBackends (.ofList [("default", catalog.schema)])
    let d : Definition := ⟨"user", none,
      .delete ⟨.obj [("publisher", .obj [("place", .obj [("_eq", .str "Ghent")])])]⟩⟩
    (∀ source σ, c.backends.get? source = some σ → ∃ catalog : Catalog, σ = catalog.schema) ∧
      ∃ p, c.compile ⟨"default", "author", "user", .delete⟩ d = .ok p ∧
        ∃ catalog : Catalog, c.backends.get? "default" = some catalog.schema ∧
          p.Grounded "default" catalog := by
  intro publisher author catalog c d
  have hc : ∀ source σ, c.backends.get? source = some σ → ∃ catalog : Catalog, σ = catalog.schema := by
    intro source σ h
    have h : (SortedMap.empty.insert "default" catalog.schema).get? source = some σ := h
    rw [SortedMap.get?_insert] at h
    split at h
    · exact ⟨catalog, (Option.some.inj h).symm⟩
    · cases h
  have hok : (c.compile ⟨"default", "author", "user", .delete⟩ d).isOk = true := by decide +kernel
  obtain ⟨p, hp⟩ := exists_of_isOk hok
  exact ⟨hc, p, hp, (consistent_grounded hc).1 _ d p hp⟩

/-- A relationship leads to a table that is not in the catalog, and a permission on it compiles. What it
depends on is not there, and is not missed when everything is compiled again. -/
theorem relationship_leads_nowhere :
    let author : Table := ⟨"author", [⟨"id", .integer⟩], [⟨"publisher", ⟨"publisher", .one⟩⟩], []⟩
    let catalog := Catalog.ofTables [author]
    let c := ofBackends (.ofList [("default", catalog.schema)])
    let i : PermissionId := ⟨"default", "author", "user", .delete⟩
    let d : Definition := ⟨"user", none, .delete ⟨.obj [("publisher", .obj [])]⟩⟩
    let st := (Store.empty.transact (Transaction.insert i d)).2
    (∃ p, c.compile i d = .ok p ∧
      ∃ e ∈ p.dependencies, e.table = "publisher" ∧ ¬ e.Present catalog.schema) ∧
    (c.rebuild st.view .full).1 = .ok [] ∧
      (c.rebuild st.view .full).2.dependents "default" "publisher" .table = [⟨i, .table⟩] := by
  intro author catalog c i d st
  have hgone : catalog.schema.tableExists "publisher" = false := by decide +kernel
  have hok : (c.compile i d).isOk = true := by decide +kernel
  have hmem : ∀ p ∈ (c.compile i d).toOption,
      ⟨"default", "publisher", .table, .table⟩ ∈ p.dependencies := by
    decide +kernel
  obtain ⟨p, hp⟩ := exists_of_isOk hok
  refine ⟨⟨p, hp, _, hmem p (by rw [hp]; rfl), rfl, fun h => ?_⟩, ?_, ?_⟩
  · rw [h.table] at hgone
    cases hgone
  · decide +kernel
  · decide +kernel

end PermissionCache

end TableAccess
