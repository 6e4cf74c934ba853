import TableAccess.Proofs.Command.Documents
import TableAccess.Proofs.Store.Table

/-!
# Commands from an export

An export lists the definitions of a table by kind. Each of its entries has what a command needs to create
the permission, but for the source and the table, so an export can be turned into a list of commands.

* `Export.commands`: the commands of an export.
* `TablePermissions.entries_toJson`: **an export has the definitions of each kind in their order.**
* `Command.read_export`: **the command of an entry creates its definition.**
-/

namespace TableAccess

variable {N : Number → Prop}

/-! ## Commands -/

namespace Export

/-- The entries of an export for the permissions of a kind. -/
def entries (x : Json) (k : Kind) : List Json :=
  match x.get? (k.name ++ "_permissions") with
  | some (.arr items) => items
  | _ => []

/-- What a command takes over from an entry. -/
def fields (entry : Json) : List (String × Json) :=
  ["role", "permission", "comment"].filterMap fun key => (entry.get? key).map fun j => (key, j)

/-- The document of a command that creates a permission. -/
def document (k : Kind) (args : List (String × Json)) : Json :=
  .obj [("type", .str ("create_" ++ k.name ++ "_permission")), ("args", .obj args)]

/-- The command that creates the permission of an entry, as a value at hand. -/
def command (source table : String) (k : Kind) (entry : Json) : Json :=
  (document k ([("source", .str source), ("table", .str table)] ++ fields entry)).canonical

/-- **The commands of an export**: for the kinds in their order, and for the entries of each as they
stand. -/
def commands (source table : String) (x : Json) : List Json :=
  Kind.all.flatMap fun k => (entries x k).map (command source table k)

end Export

/-! ## What an export has -/

/-- Where no key comes twice, a value has its entries in canonical form. -/
theorem Json.get?_canonical {entries : List (String × Json)} (hn : (entries.map (·.1)).Nodup) (key : String) :
    (obj entries).canonical.get? key = ((obj entries).get? key).map canonical := by
  have hkeys : ((canonicalEntries entries).map (·.1)).Nodup := by rwa [keys_canonicalEntries]
  have hperm := SortedMap.perm_ofList hkeys
  show (sortEntries (canonicalEntries entries)).lookup key = (entries.lookup key).map canonical
  rw [sortEntries, ← Record.lookup_perm hperm.symm hkeys, canonicalEntries_eq_map]
  clear hn hkeys hperm
  induction entries with
  | nil => rfl
  | cons e rest ih =>
    rw [List.map_cons, List.lookup_cons, List.lookup_cons, ih]
    cases key == e.1 <;> rfl

namespace TablePermissions

theorem keys_kindToJson (t : TablePermissions) (k : Kind) :
    ((t.kindToJson k).map (·.1)).Sublist [k.name ++ "_permissions"] := by
  unfold kindToJson
  split
  · exact List.nil_sublist _
  · exact List.Sublist.refl _

/-- No key comes twice in an export. -/
theorem nodup_keys (t : TablePermissions) :
    ((("table", Json.str t.table) :: Kind.all.flatMap t.kindToJson).map (·.1)).Nodup := by
  have hnames : ("table" :: Kind.all.map fun k => k.name ++ "_permissions").Nodup := by decide +kernel
  refine hnames.sublist (List.Sublist.cons_cons _ ?_)
  generalize Kind.all = ks
  induction ks with
  | nil => exact List.Sublist.slnil
  | cons k ks ih =>
    rw [List.flatMap_cons, List.map_append]
    exact (t.keys_kindToJson k).append ih

theorem lookup_kindToJson (t : TablePermissions) (k k' : Kind) :
    (t.kindToJson k').lookup (k.name ++ "_permissions") =
      if k' = k ∧ (t.ofKind k).isEmpty = false then
        some (.arr ((t.ofKind k).toList.map fun e => definitionToJson e.2)) else none := by
  unfold kindToJson
  by_cases hk : k' = k
  · subst hk
    cases (t.ofKind k').isEmpty <;> simp
  · have hname : (k.name ++ "_permissions" == k'.name ++ "_permissions") = false := by
      cases k <;> cases k' <;> first | exact absurd rfl hk | decide +kernel
    cases (t.ofKind k').isEmpty <;> simp [hk, List.lookup_cons, hname]

/-- Under the name of a kind an export has its definitions, unless there are none. -/
theorem get?_toJson (t : TablePermissions) (k : Kind) :
    t.toJson.get? (k.name ++ "_permissions") = if (t.ofKind k).isEmpty = false then
      some (.arr ((t.ofKind k).toList.map fun e => definitionToJson e.2)) else none := by
  have htable : (k.name ++ "_permissions" == "table") = false := by cases k <;> decide +kernel
  simp only [toJson, Json.get?, List.lookup_cons, htable, Kind.all, List.flatMap_cons, List.flatMap_nil,
    List.lookup_append, lookup_kindToJson]
  cases k <;> simp

/-- **An export has the definitions of each kind in their order.** -/
theorem entries_toJson (t : TablePermissions) (k : Kind) :
    Export.entries t.toJson.canonical k =
      (t.ofKind k).toList.map fun e => (definitionToJson e.2).canonical := by
  rw [Export.entries, toJson, Json.get?_canonical t.nodup_keys, ← toJson, get?_toJson]
  cases h : (t.ofKind k).isEmpty with
  | false => simp [Json.canonical, Json.canonicalItems_eq_map]
  | true => simp [List.isEmpty_iff.1 h]

/-- What is found in the entry of a definition. -/
theorem get?_definitionToJson (d : Definition) (key : String) :
    (definitionToJson d).canonical.get? key = ((definitionToJson d).get? key).map Json.canonical := by
  refine Json.get?_canonical ?_ key
  cases d.comment <;> simp [Json.entry?]

/-- What a command takes over from the entry of a definition. -/
theorem fields_definitionToJson (d : Definition) :
    Export.fields (definitionToJson d).canonical =
      [("role", .str d.role), ("permission", d.clause.bodyToJson.canonical)] ++
        Json.entry? "comment" Json.str d.comment := by
  simp only [Export.fields, get?_definitionToJson]
  rw [definitionToJson]
  cases d.comment <;> simp [Json.get?, Json.entry?, List.lookup_cons, Json.canonical]

end TablePermissions

/-! ## What the commands do -/

open Reader (Restores)

/-- Any value is restored in canonical form. -/
theorem Reader.Restores.free (j : Json) : Reader.json.Restores j j.canonical := by
  have h : ∀ j, Reader.json.Recovers j j.canonical := fun j =>
    ⟨fun _ => readJson_ofJson_eq_canonical j, fun _ n _ hb => depth_of_readJson_limit n j hb⟩
  exact ⟨h j, by rw [← Json.canonical_canonical j]; exact (Json.canonical_canonical j).symm ▸ h j.canonical⟩

theorem CommandDocument.restores (command : String) (args : Json) :
    CommandDocument.reader.Restores (.obj [("type", .str command), ("args", args)])
      ⟨command, args.canonical⟩ := by
  have htype : (mk <$> Record.required "type" Reader.string []).Restores _ _ :=
    (Record.Restores.required (.string command) []).map
  have hargs : (Record.withDefault "args" Reader.json .null).Restores _ args.canonical :=
    .withDefault (.free args) _
  exact (htype.seq hargs (by decide +kernel)).reader (by decide +kernel) true

theorem TableRef.restores (table : String) : TableRef.reader.Restores (.str table) ⟨none, table⟩ :=
  .of_canonical trivial (.of_flat (fun _ => rfl) rfl)

theorem CreateArgs.restores (source table role : String) (permission : Json) (comment : Option String) :
    CreateArgs.record.strict.Restores
      (.obj ([("source", .str source), ("table", .str table)] ++
        ([("role", .str role), ("permission", permission)] ++ Json.entry? "comment" Json.str comment)))
      ⟨⟨source, ⟨none, table⟩, role⟩, permission.canonical, comment⟩ := by
  have hsource : (RoleArgs.mk <$> Record.withDefault "source" Reader.string defaultSource).Restores _ _ :=
    (Record.Restores.withDefault (.string source) _).map
  have htable : (Record.required "table" TableRef.reader []).Restores _ ⟨none, table⟩ :=
    .required (TableRef.restores table) []
  have hrole : (Record.required "role" Reader.string []).Restores _ role := .required (.string role) []
  have htarget := ((hsource.seq htable (by decide +kernel)).seq hrole (by decide +kernel)).map (f := CreateArgs.mk)
  have hpermission : (Record.required "permission" Reader.json []).Restores _ permission.canonical :=
    .required (.free permission) []
  have hcomment : (Record.maybe "comment" Reader.string).Restores _ comment :=
    .maybe fun s _ => ⟨.string s, by simp⟩
  exact ((htarget.seq hpermission (by decide +kernel)).seq hcomment (by decide +kernel)).reader
    (by decide +kernel) true

theorem CommandDocument.name_create (k : Kind) (args : Json) :
    (CommandDocument.mk ("create_" ++ k.name ++ "_permission") args).name =
      "create_" ++ k.name ++ "_permission" := by
  have h : "pg_".toList.isPrefixOf ("create_" ++ k.name ++ "_permission").toList = false := by
    cases k <;> decide +kernel
  simp only [name, h, Bool.false_eq_true, if_false]

theorem CommandDocument.isBulk_create (k : Kind) (args : Json) :
    (CommandDocument.mk ("create_" ++ k.name ++ "_permission") args).isBulk = false := by
  rw [isBulk, name_create]
  cases k <;> decide +kernel

namespace Export

variable (source table : String) (d : Definition)

/-- The command of an entry, as it is read. -/
theorem reader_command : ∃ args, CommandDocument.reader.ofJson
      (command source table d.kind (TablePermissions.definitionToJson d).canonical) =
        .ok ⟨"create_" ++ d.kind.name ++ "_permission", args⟩ ∧
    CreateArgs.record.strict.ofJson args =
      .ok ⟨⟨source, ⟨none, table⟩, d.role⟩, d.clause.bodyToJson.canonical, d.comment⟩ := by
  have hargs := CreateArgs.restores source table d.role d.clause.bodyToJson.canonical d.comment
  rw [Json.canonical_canonical] at hargs
  rw [command, TablePermissions.fields_definitionToJson]
  exact ⟨_, (CommandDocument.restores _ _).inOrder.read _, hargs.inOrder.read _⟩

/-- The command of an entry is not a list of commands. -/
theorem isList_command :
    Script.isList (command source table d.kind (TablePermissions.definitionToJson d).canonical) = false := by
  obtain ⟨args, hdoc, -⟩ := reader_command source table d
  simp only [Script.isList, hdoc, CommandDocument.isBulk_create, Bool.false_and]

end Export

/-- **The command of an entry creates its definition.** -/
theorem Command.read_export (source table : String) {d : Definition} (hd : d.clause.Free N) :
    Command.read (Export.command source table d.kind (TablePermissions.definitionToJson d).canonical) =
      .ok (.create d.kind source table d.role d.clause d.comment) := by
  obtain ⟨args, hdoc, hargs⟩ := Export.reader_command source table d
  have hkind : kindIn? "create_" ("create_" ++ d.kind.name ++ "_permission") = some d.kind := by
    cases d.kind <;> decide +kernel
  have hread : readArgs CreateArgs.record args = .ok _ := within_eq_ok.2 (orUnreadable_eq_ok.2 hargs)
  have hbody : within "permission" (orUnreadable
      ((Clause.bodyReader d.kind).ofJson d.clause.bodyToJson.canonical)) = .ok d.clause :=
    within_eq_ok.2 (orUnreadable_eq_ok.2 (Clause.body_restores hd).ofJson.2)
  refine bind_eq_ok.2 ⟨_, orUnreadable_eq_ok.2 hdoc, ?_⟩
  rw [CommandDocument.isBulk_create, CommandDocument.name_create]
  simp only [Bool.false_eq_true, if_false, ofName, hkind]
  exact bind_eq_ok.2 ⟨_, hread, bind_eq_ok.2 ⟨_, hbody, rfl⟩⟩

end TableAccess
