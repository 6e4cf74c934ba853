import TableAccess.Dependency
import TableAccess.Permission.Id
import TableAccess.Proofs.Permission.Stored
import TableAccess.Proofs.Schema.Codec

/-!
# All formats

Permissions, what they depend on, their identities and catalogs are all written as documents and read from
documents. Reading any of them undoes writing it.

* `StoredDefinition.undoes`, `Clause.undoes`, `Dependency.undoes`, `PermissionId.undoes`: the formats but for
  catalogs, by the parts of each.
* `reading_undoes_writing`: **whatever is read is read again from what it is written as**, and catalogs are written
  in one order and read in any.
-/

namespace TableAccess

open Reader (Restores Undoes)

variable {N : Number → Prop}

/-! ## Clauses and definitions -/

theorem ColumnSpec.undoes : ColumnSpec.reader.Undoes toJson :=
  .of (fun _ => .trivial _) (fun _ c _ => c.restores) fun c _ => c.allNumbers

theorem InsertClause.undoes : InsertClause.reader.Undoes toJson :=
  .of (fun _ => reader_yields) (fun _ _ h => restores h) fun c h =>
    Clause.allNumbers (c := .insert c) Number.hasIntegers_readsBack h

theorem SelectClause.undoes : SelectClause.reader.Undoes toJson :=
  .of (fun _ => reader_yields) (fun _ _ h => restores h) fun c h =>
    Clause.allNumbers (c := .select c) Number.hasIntegers_readsBack h

theorem UpdateClause.undoes : UpdateClause.reader.Undoes toJson :=
  .of (fun _ => reader_yields) (fun _ _ h => restores h) fun c h =>
    Clause.allNumbers (c := .update c) Number.hasIntegers_readsBack h

theorem DeleteClause.undoes : DeleteClause.reader.Undoes toJson :=
  .of (fun _ => reader_yields) (fun _ _ h => restores h) fun c h =>
    Clause.allNumbers (c := .delete c) Number.hasIntegers_readsBack h

theorem Clause.undoes : Clause.reader.Undoes toJson :=
  .of (fun _ => reader_yields) (fun _ _ h => restores h) fun _ h =>
    Json.allNumbers_obj.2 (List.forall_mem_singleton.2 (allNumbers Number.hasIntegers_readsBack h))

theorem Definition.undoes : Definition.reader.Undoes toJson :=
  .of (fun _ => reader_yields) (fun _ _ h => restores h) fun _ h =>
    allNumbers Number.hasIntegers_readsBack h

theorem StoredDefinition.undoes : StoredDefinition.reader.Undoes toJson :=
  .of (fun _ => reader_yields) (fun _ _ h => restores h.1 h.2) fun _ h =>
    allNumbers Number.hasIntegers_readsBack h.1 h.2

/-! ## Identities -/

theorem Kind.restores (k : Kind) : Kind.reader.Restores k.toJson k := .word (by cases k <;> rfl)

theorem PermissionId.restores (i : PermissionId) : PermissionId.reader.Restores i.toJson i := by
  have hsource : (mk <$> Record.required "source" Reader.string []).Restores _ _ :=
    (Record.Restores.required (.string i.source) []).map
  have htable : (Record.required "table" Reader.string []).Restores _ i.table := .required (.string _) []
  have hrole : (Record.required "role" Reader.string []).Restores _ i.role := .required (.string _) []
  have hkind : (Record.required "kind" Kind.reader []).Restores _ i.kind := .required i.kind.restores []
  exact (((hsource.seq htable (by decide +kernel)).seq hrole (by decide +kernel)).seq hkind
    (by decide +kernel)).reader (by decide +kernel) false

theorem PermissionId.undoes : PermissionId.reader.Undoes toJson :=
  .of (fun _ => .trivial _) (fun _ i _ => i.restores) fun i _ => by
    have flat : ∀ s, (Json.str s).AllNumbers Number.ReadsBack := fun s _ h => by cases h
    exact Json.allNumbers_obj.2 (by simp [Kind.toJson, flat])

/-! ## Dependencies -/

theorem Reason.restores (r : Reason) : Reason.reader.Restores r.toJson r := .word (by cases r <;> rfl)

/-- The content of a target comes before its tag when they stand in order. -/
theorem Target.canonical_toJson (t : Target) :
    t.toJson.canonical = match t with
      | table => .obj [("type", .str "table")]
      | column n => .obj [("name", .str n), ("type", .str "column")]
      | computedField n => .obj [("name", .str n), ("type", .str "computed_field")]
      | relationship n => .obj [("name", .str n), ("type", .str "relationship")] := by
  have h : compare "name" "type" = .lt := by decide +kernel
  cases t with
  | table => rfl
  | column n => exact Json.canonical_pair h _ _
  | computedField n => exact Json.canonical_pair h _ _
  | relationship n => exact Json.canonical_pair h _ _

theorem Target.restores (t : Target) : Target.reader.Restores t.toJson t := by
  have hflaw : ∀ s f b, Target.reader s (.flaw f) ≠ .ok b := fun s f b h => by cases h
  refine ⟨.of_shallow (fun s => ?_) (by cases t <;> exact Nat.le_refl _) hflaw, ?_⟩
  · cases t <;> cases s <;> rfl
  · rw [canonical_toJson]
    exact .of_shallow (fun s => by cases t <;> cases s <;> rfl) (by cases t <;> exact Nat.le_refl _) hflaw

theorem Dependency.restores (d : Dependency) : Dependency.reader.Restores d.toJson d := by
  have hsource : (mk <$> Record.required "source" Reader.string []).Restores _ _ :=
    (Record.Restores.required (.string d.source) []).map
  have htable : (Record.required "table" Reader.string []).Restores _ d.table := .required (.string _) []
  have htarget : (Record.required "target" Target.reader []).Restores _ d.target :=
    .required d.target.restores []
  have hreason : (Record.required "reason" Reason.reader []).Restores _ d.reason :=
    .required d.reason.restores []
  exact (((hsource.seq htable (by decide +kernel)).seq htarget (by decide +kernel)).seq hreason
    (by decide +kernel)).reader (by decide +kernel) false

theorem Dependency.undoes : Dependency.reader.Undoes toJson :=
  .of (fun _ => .trivial _) (fun _ d _ => d.restores) fun d _ => by
    have flat : ∀ s, (Json.str s).AllNumbers Number.ReadsBack := fun s _ h => by cases h
    have htarget : d.target.toJson.AllNumbers Number.ReadsBack := by
      cases d.target <;> simp [Target.toJson, Json.allNumbers_obj, flat]
    exact Json.allNumbers_obj.2 (by simp [Reason.toJson, flat, htarget])

/-! ## All of them -/

/-- **Whatever is read is read again from what it is written as**, from the value and from its text. The
tables of a written catalog are sorted by name, with one for each name, and tables with different names are
read as the same catalog in any order. -/
theorem reading_undoes_writing :
    StoredDefinition.reader.Undoes StoredDefinition.toJson ∧
      Definition.reader.Undoes Definition.toJson ∧
      Clause.reader.Undoes Clause.toJson ∧
      InsertClause.reader.Undoes InsertClause.toJson ∧
      SelectClause.reader.Undoes SelectClause.toJson ∧
      UpdateClause.reader.Undoes UpdateClause.toJson ∧
      DeleteClause.reader.Undoes DeleteClause.toJson ∧
      ColumnSpec.reader.Undoes ColumnSpec.toJson ∧
      Dependency.reader.Undoes Dependency.toJson ∧
      PermissionId.reader.Undoes PermissionId.toJson ∧
      Table.reader.Undoes Table.toJson ∧
      Catalog.reader.Undoes Catalog.toJson ∧
      (∀ s d c, Catalog.reader s d = .ok c → ∃ ts : List Table,
        c.toJson = .obj [("tables", .arr (ts.map Table.toJson))] ∧
          (ts.map (·.name)).Pairwise fun a b => compare a b = .lt) ∧
      ∀ s (items items' : List Document), items.Perm items' →
        (∀ ts, items.mapM (Table.reader s) = .ok ts → (ts.map (·.name)).Nodup) →
        ∀ c, Catalog.reader s (.obj [("tables", .arr items)] none) = .ok c ↔
          Catalog.reader s (.obj [("tables", .arr items')] none) = .ok c :=
  ⟨StoredDefinition.undoes, Definition.undoes, Clause.undoes, InsertClause.undoes, SelectClause.undoes,
    UpdateClause.undoes, DeleteClause.undoes, ColumnSpec.undoes, Dependency.undoes, PermissionId.undoes,
    Table.undoes, Catalog.undoes,
    fun _ _ _ h => (Catalog.reader_yields (N := fun _ => True) (fun _ _ => trivial) h).toJson_eq,
    fun _ _ _ hp hn _ => Catalog.reader_eq_ok_of_perm hp hn⟩

/-- A select permission with defaults, read from a text and from what it is written as. -/
theorem reading_undoes_writing_authors :
    let t := "\x7b\"permission\": \x7b\"select\": \x7b\"columns\": \"*\"\x7d\x7d, \"role\": \"author\", \"comment\": null\x7d"
    let d : Definition := ⟨"author", none, .select ⟨.all, .emptyObject, none, false, [], none, none⟩⟩
    Definition.reader.ofText t = .ok d ∧ Definition.reader.ofText d.toJson.text = .ok d := by
  intro t d
  have ht : Definition.reader.ofText t = .ok d := by decide +kernel
  have hn : (Document.ofText t).1.NumbersReadBack := by
    have : (Document.ofText t).1.numbers = [] := by decide +kernel
    intro n hn
    rw [this] at hn
    cases hn
  exact ⟨ht, (reading_undoes_writing.2.1.ofText _ _ _ (Reader.stream_of_ofText ht) hn (by decide +kernel)).1⟩

end TableAccess
