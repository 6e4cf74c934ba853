import Mathlib.Data.List.Perm.Basic
import TableAccess.Proofs.Json.Restoration
import TableAccess.Schema.Catalog

/-!
# Catalogs come back from their documents

A catalog keeps its tables by name and writes them as a list. A catalog that is read holds every table under
the table's own name, so the list that is written has one table for each name, in order of the names, and is
read as the same catalog. Of a list in which no name comes twice, the order does not matter.

* `Table.undoes`, `Catalog.undoes`: **reading a table or a catalog undoes writing it.**
* `Catalog.Keyed.toJson_eq`: **the written tables are sorted by name, with one for each name.**
* `Catalog.reader_eq_ok_of_perm`: **the order of the tables in a document does not matter** if their names
  differ.
-/

namespace TableAccess

open Reader (Restores Undoes)

variable {N : Number → Prop}

/-! ## Columns, relationships and computed fields -/

theorem ColumnType.restores (t : ColumnType) : ColumnType.reader.Restores t.toJson t :=
  .word (by cases t <;> rfl)

theorem Column.restores (c : Column) : Column.reader.Restores c.toJson c := by
  have hname : (mk <$> Record.required "name" Reader.string []).Restores _ _ :=
    (Record.Restores.required (.string c.name) []).map
  have htype : (Record.required "type" ColumnType.reader []).Restores _ c.type :=
    .required c.type.restores []
  exact (hname.seq htype (by decide +kernel)).reader (by decide +kernel) false

theorem NamedRelationship.canonical_toJson (r : NamedRelationship) :
    r.toJson.canonical = .obj [("kind", .str r.target.cardinality.name), ("name", .str r.name),
      ("remote_table", .str r.target.remoteTable)] := by
  have hkind : compare "kind" "name" = .lt := by decide +kernel
  have htable : compare "remote_table" "name" = .gt := by decide +kernel
  simp [toJson, Relationship.entries, Json.canonical, Json.canonicalEntries, Json.sortEntries,
    SortedMap.ofList, SortedMap.insert, SortedMap.empty, SortedMap.put, hkind, htable]

theorem NamedRelationship.restores (r : NamedRelationship) : reader.Restores r.toJson r := by
  have hflaw : ∀ s f b, reader s (.flaw f) ≠ .ok b := fun s f b h => by cases h
  obtain ⟨name, table, cardinality⟩ := r
  refine ⟨.of_shallow (fun s => ?_) (Nat.le_refl _) hflaw, ?_⟩
  · cases cardinality <;> cases s <;> rfl
  · rw [canonical_toJson]
    refine .of_shallow (fun s => ?_) (Nat.le_refl _) hflaw
    cases cardinality <;> cases s <;> rfl

theorem Returns.canonical_toJson (r : Returns) :
    r.toJson.canonical = match r with
      | scalar t => .obj [("scalar", t.toJson), ("type", .str "scalar")]
      | rows table => .obj [("table", .str table), ("type", .str "set_of_rows")] := by
  cases r with
  | scalar t => exact Json.canonical_pair (by decide +kernel) _ _
  | rows table => exact Json.canonical_pair (by decide +kernel) _ _

theorem Returns.restores (r : Returns) : reader.Restores r.toJson r := by
  have hflaw : ∀ s f b, reader s (.flaw f) ≠ .ok b := fun s f b h => by cases h
  refine ⟨.of_shallow (fun s => ?_) (by cases r <;> exact Nat.le_refl _) hflaw, ?_⟩
  · cases r with
    | scalar t => cases t <;> cases s <;> rfl
    | rows table => cases s <;> rfl
  · rw [canonical_toJson]
    refine .of_shallow (fun s => ?_) (by cases r <;> exact Nat.le_refl _) hflaw
    cases r with
    | scalar t => cases t <;> cases s <;> rfl
    | rows table => cases s <;> rfl

theorem ComputedField.restores (f : ComputedField) : reader.Restores f.toJson f := by
  have hname : (mk <$> Record.required "name" Reader.string []).Restores _ _ :=
    (Record.Restores.required (.string f.name) []).map
  have hreturns : (Record.required "returns" Returns.reader []).Restores _ f.returns :=
    .required f.returns.restores []
  exact (hname.seq hreturns (by decide +kernel)).reader (by decide +kernel) false

/-! ## Tables -/

namespace Table

theorem restores (t : Table) : reader.Restores t.toJson t := by
  have hname : (mk <$> Record.required "name" Reader.string []).Restores _ _ :=
    (Record.Restores.required (.string t.name) []).map
  have hcolumns : (Record.withDefault "columns" (.list Column.reader) []).Restores _ t.columns :=
    .withDefault (.list fun c _ => c.restores) _
  have hrelationships : (Record.withDefault "relationships" (.list NamedRelationship.reader) []).Restores _
      t.relationships := .withDefault (.list fun r _ => r.restores) _
  have hcomputed : (Record.withDefault "computed_fields" (.list ComputedField.reader) []).Restores _
      t.computedFields := .withDefault (.list fun f _ => f.restores) _
  exact (((hname.seq hcolumns (by decide +kernel)).seq hrelationships (by decide +kernel)).seq hcomputed
    (by decide +kernel)).reader (by decide +kernel) false

/-- A written table has no numbers in it. -/
theorem allNumbers (t : Table) : t.toJson.AllNumbers N := by
  have flat : ∀ s, (Json.str s).AllNumbers N := fun s _ h => by cases h
  have hcolumn : ∀ c : Column, c.toJson.AllNumbers N := fun c => by
    simp [Column.toJson, ColumnType.toJson, Json.allNumbers_obj, flat]
  have hrelationship : ∀ r : NamedRelationship, r.toJson.AllNumbers N := fun r => by
    simp [NamedRelationship.toJson, Relationship.entries, Json.allNumbers_obj, flat]
  have hcomputed : ∀ f : ComputedField, f.toJson.AllNumbers N := fun f => by
    cases h : f.returns <;>
      simp [ComputedField.toJson, h, Returns.toJson, ColumnType.toJson, Json.allNumbers_obj, flat]
  simp [toJson, Json.allNumbers_obj, Json.allNumbers_arr, flat, hcolumn, hrelationship, hcomputed]

/-- **Reading a table undoes writing it.** -/
theorem undoes : reader.Undoes toJson :=
  .of (fun _ => .trivial _) (fun _ t _ => t.restores) fun t _ => t.allNumbers

end Table

/-! ## Catalogs -/

namespace Catalog

variable {c : Catalog}

/-- Every table is held under its own name. -/
def Keyed (c : Catalog) : Prop := ∀ e ∈ c.tables.toList, e.1 = e.2.name

theorem ofTables_eq (l : List Table) : ofTables l = ⟨.ofList (l.map fun t => (t.name, t))⟩ := by
  have h : ∀ (l : List Table) (c : Catalog), l.foldl add c =
      ⟨(l.map fun t => (t.name, t)).foldl (fun m e => m.insert e.1 e.2) c.tables⟩ := by
    intro l
    induction l with
    | nil => exact fun _ => rfl
    | cons t l ih => exact fun c => ih (c.add t)
  exact h l empty

theorem keyed_ofTables (l : List Table) : (ofTables l).Keyed := by
  intro e he
  rw [ofTables_eq] at he
  obtain ⟨t, -, rfl⟩ := List.mem_map.1 (SortedMap.mem_of_mem_ofList he)
  rfl

theorem Keyed.map_values (h : c.Keyed) : (c.tables.values.map fun t => (t.name, t)) = c.tables.toList := by
  rw [SortedMap.values, List.map_map]
  refine (List.map_congr_left fun e he => ?_).trans (List.map_id _)
  exact Prod.ext (h e he).symm rfl

/-- The catalog of a catalog's own tables is that catalog. -/
theorem Keyed.ofTables_values (h : c.Keyed) : ofTables c.tables.values = c := by
  rw [ofTables_eq, h.map_values, SortedMap.ofList_toList]

theorem reader_yields : reader.Yields N Keyed := by
  refine ((Record.Yields.trivial _).map.mono ?_).reader false
  rintro _ ⟨l, -, rfl⟩
  exact keyed_ofTables l

theorem Keyed.restores (h : c.Keyed) : reader.Restores c.toJson c := by
  have htables : (Record.withDefault "tables" (.list Table.reader) []).Restores _ c.tables.values :=
    .withDefault (.list fun t _ => t.restores) _
  have hrecord : record.Restores _ (ofTables c.tables.values) := htables.map
  rw [h.ofTables_values] at hrecord
  exact hrecord.reader (by decide +kernel) false

/-- **Reading a catalog undoes writing it.** -/
theorem undoes : reader.Undoes toJson :=
  .of (fun _ => reader_yields) (fun _ _ h => h.restores) fun c _ => by
    refine Json.allNumbers_obj.2 (List.forall_mem_singleton.2 (Json.allNumbers_arr.2 fun j hj => ?_))
    obtain ⟨t, -, rfl⟩ := List.mem_map.1 hj
    exact t.allNumbers

/-- **The written tables are sorted by name, with one for each name.** -/
theorem Keyed.toJson_eq (h : c.Keyed) : ∃ ts : List Table,
    c.toJson = .obj [("tables", .arr (ts.map Table.toJson))] ∧
      (ts.map (·.name)).Pairwise fun a b => compare a b = .lt := by
  refine ⟨c.tables.values, rfl, ?_⟩
  have hnames : c.tables.values.map (·.name) = c.tables.toList.map (·.1) := by
    rw [← h.map_values, List.map_map]
    rfl
  rw [hnames, List.pairwise_map]
  exact c.tables.ordered

/-! ## Tables in another order -/

/-- Where no name comes twice, the order of the tables does not matter. -/
theorem ofTables_perm {l l' : List Table} (hp : l.Perm l') (hn : (l.map (·.name)).Nodup) :
    ofTables l = ofTables l' := by
  have hkeys : ((l.map fun t => (t.name, t)).map (·.1)).Nodup := by rwa [List.map_map]
  rw [ofTables_eq, ofTables_eq, SortedMap.ofList_congr (hp.map _) hkeys]

/-- A list of tables is read as the catalog of the tables that are read in it. -/
theorem reader_tables {s : Supply} {items : List Document} :
    reader s (.obj [("tables", .arr items)] none) = .ok c ↔
      ∃ ts, items.mapM (Table.reader s) = .ok ts ∧ ofTables ts = c := by
  have hread : reader s (.obj [("tables", .arr items)] none) =
      (((items.mapM (Table.reader s)).map fun _ => ()) >>= fun _ => .ok [("tables", Document.arr items)]) >>=
        fun found => record.build s fun name => found.lookup name := rfl
  have hbuild : record.build s (fun name => List.lookup name [("tables", Document.arr items)]) =
      (items.mapM (Table.reader s) >>= fun ts => .ok (ofTables ts)) := rfl
  rw [hread]
  cases h : items.mapM (Table.reader s) with
  | error e => exact ⟨fun hc => (nomatch hc), fun ⟨_, hts, _⟩ => (nomatch hts)⟩
  | ok ts =>
    show record.build s (fun name => List.lookup name [("tables", Document.arr items)]) = .ok c ↔ _
    rw [hbuild, h]
    simp

/-- **The order of the tables in a document does not matter** if their names differ. -/
theorem reader_eq_ok_of_perm {s : Supply} {items items' : List Document} (hp : items.Perm items')
    (hn : ∀ ts, items.mapM (Table.reader s) = .ok ts → (ts.map (·.name)).Nodup) :
    reader s (.obj [("tables", .arr items)] none) = .ok c ↔
      reader s (.obj [("tables", .arr items')] none) = .ok c := by
  rw [reader_tables, reader_tables]
  constructor
  · rintro ⟨ts, hts, rfl⟩
    obtain ⟨ts', hts', hp'⟩ := List.perm_comp_forall₂ hp.symm (mapM_eq_ok.1 hts)
    exact ⟨ts', mapM_eq_ok.2 hts', (ofTables_perm hp'.symm (hn ts hts)).symm⟩
  · rintro ⟨ts', hts', rfl⟩
    obtain ⟨ts, hts, hp'⟩ := List.perm_comp_forall₂ hp (mapM_eq_ok.1 hts')
    have hts := mapM_eq_ok.2 hts
    exact ⟨ts, hts, ofTables_perm hp' (hn ts hts)⟩

end Catalog

end TableAccess
