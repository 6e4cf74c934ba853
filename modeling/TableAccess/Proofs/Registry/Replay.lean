import TableAccess.Proofs.Command.Export
import TableAccess.Proofs.Registry.Filing

/-!
# Exports can be replayed

The export of a table lists its permissions by kind, those of a kind in order of insertion. The commands of
an export create them again on another registry whose schema has the table: what is stored can be read, so it
can be written again, and it stands under names and roles that are allowed. The numbers are new, but each kind
keeps its order, and so the other store has the same permissions of the table.

* `Contents.numbered`: definitions with new numbers.
* `Operation.create_of_new`: what can be stored and read is created where it is not stored.
* `Registry.replay`: **the commands of definitions that were stored create them again**, one behind the other.
* `PermissionCache.export_replays`: **the commands of an export give another store the same permissions of the
  table.**
-/

namespace TableAccess

/-! ## New numbers -/

namespace Contents

/-- The definitions of a list, with the numbers from `n` on. -/
def numbered (n : Nat) : Contents → Contents
  | [] => []
  | e :: l => (e.1, ⟨n, e.2.definition⟩) :: numbered (n + 1) l

variable {l : Contents} {n : Nat}

theorem exists_of_mem_numbered {e : PermissionId × StoredDefinition} (he : e ∈ l.numbered n) :
    ∃ e' ∈ l, e.1 = e'.1 ∧ e.2.definition = e'.2.definition ∧ e.2.seq < n + l.length := by
  induction l generalizing n with
  | nil => cases he
  | cons e' l ih =>
    rcases List.mem_cons.1 he with rfl | he
    · exact ⟨e', List.mem_cons_self, rfl, rfl, Nat.lt_add_of_pos_right (Nat.succ_pos _)⟩
    · obtain ⟨e'', hmem, hid, hd, hseq⟩ := ih he
      refine ⟨e'', List.mem_cons_of_mem _ hmem, hid, hd, ?_⟩
      rw [List.length_cons]
      omega

/-- Numbers do not matter to the definitions of a table and a kind. -/
theorem ofKind_numbered (l : Contents) (n : Nat) (source table : String) (k : Kind) :
    ((l.numbered n).ofKind source table k).map (fun e => (e.1.role, e.2.definition)) =
      (l.ofKind source table k).map fun e => (e.1.role, e.2.definition) := by
  induction l generalizing n with
  | nil => rfl
  | cons e l ih =>
    have ih := ih (n + 1)
    simp only [ofKind] at ih
    simp only [numbered, ofKind, List.filter_cons]
    split
    · rw [List.map_cons, List.map_cons, ih]
    · exact ih

/-- The definitions of a table, kind by kind. -/
def byKind (l : Contents) (source table : String) : Contents :=
  Kind.all.flatMap (l.ofKind source table)

theorem ofKind_byKind (l : Contents) (source table : String) (k : Kind) :
    (l.byKind source table).ofKind source table k = l.ofKind source table k := by
  have h : ∀ k', (l.ofKind source table k').ofKind source table k =
      if k' = k then l.ofKind source table k else [] := by
    intro k'
    rw [ofKind, ofKind, List.filter_filter]
    split
    next hk => subst hk; exact List.filter_congr fun e _ => by simp
    next hk =>
      refine List.filter_eq_nil_iff.2 fun e _ => ?_
      simp only [Bool.and_eq_true, decide_eq_true_eq, not_and]
      rintro ⟨-, -, hkind⟩ - - hkind'
      exact hk (hkind'.symm.trans hkind)
  have happend : ∀ l l' : Contents, (l ++ l').ofKind source table k =
      l.ofKind source table k ++ l'.ofKind source table k := fun _ _ => List.filter_append _ _
  simp only [byKind, Kind.all, List.flatMap_cons, List.flatMap_nil, happend, h]
  cases k <;> simp [ofKind]

theorem mem_byKind {source table : String} {e : PermissionId × StoredDefinition}
    (he : e ∈ l.byKind source table) : e ∈ l ∧ e.1.source = source ∧ e.1.table = table := by
  obtain ⟨k, -, he⟩ := List.mem_flatMap.1 he
  obtain ⟨he, hid⟩ := List.mem_filter.1 he
  obtain ⟨hs, ht, -⟩ := of_decide_eq_true hid
  exact ⟨he, hs, ht⟩

end Contents

/-- What stands for a table kind by kind has no identity twice. -/
theorem Store.Holds.nodup_byKind {st : Store} {l : Contents} (h : st.Holds l) (source table : String) :
    (l.byKind source table).Nodup := by
  refine List.nodup_flatMap.2 ⟨fun k _ => h.ids.of_map.filter _, ?_⟩
  have hkinds : Kind.all.Pairwise (· ≠ ·) := by decide
  refine hkinds.imp fun hne e he he' => hne ?_
  have hid := of_decide_eq_true (List.mem_filter.1 he).2
  have hid' := of_decide_eq_true (List.mem_filter.1 he').2
  exact hid.2.2.symm.trans hid'.2.2

/-- A stored definition of a table that can be stored again. -/
structure Replayable (source table : String) (e : PermissionId × StoredDefinition) : Prop
    extends FiledForRole e where
  readable : e.2.Readable
  storable : e.2.definition.clause.Storable
  source : e.1.source = source
  table : e.1.table = table

/-- The command that creates a definition, as it is made of the entry of an export. -/
def Definition.command (source table : String) (d : Definition) : Json :=
  Export.command source table d.kind (TablePermissions.definitionToJson d).canonical

/-! ## Creating again -/

namespace Operation

variable {r : Registry PermissionCache} {l : Contents}

/-- **A permission that is not stored is created** if its table exists and it can be stored and read. -/
theorem create_of_new (hl : r.store.Holds l) {source table role : String} {clause : Clause}
    {comment : Option String} (hnamed : role ≠ "") (hadmin : role ≠ adminRole)
    (hk : Key.Fits (Key.ofId ⟨source, table, role, clause.kind⟩)) (hs : clause.Storable)
    (hread : (StoredDefinition.mk r.store.nextSeq ⟨role, comment, clause⟩).Readable)
    (hnew : ⟨source, table, role, clause.kind⟩ ∉ l.map (·.1)) {σ : Schema}
    (hσ : r.cache.backends.get? source = some σ) (ht : σ.tableExists table = true) :
    ∃ o st, create source table role clause comment r =
        (.ok o, ⟨st, r.cache.record ⟨source, table, role, clause.kind⟩ ⟨role, comment, clause⟩⟩) ∧
      st.Holds (l ++ [(⟨source, table, role, clause.kind⟩, ⟨r.store.nextSeq, ⟨role, comment, clause⟩⟩)]) ∧
      st.nextSeq = r.store.nextSeq + 1 := by
  obtain ⟨k, hk, hlen⟩ := hk
  have hcontains : r.store.permissions.contains k = false := by
    rw [SortedMap.contains, hl.get?_text hk, Contents.lookup_eq_none_iff.2 hnew]
    rfl
  obtain ⟨st, hw, hseq⟩ : ∃ st, created ⟨source, table, role, clause.kind⟩ ⟨role, comment, clause⟩ r.store =
      .ok ((), st) ∧ st.nextSeq = r.store.nextSeq + 1 :=
    ⟨_, created_eq_ok.2 ⟨k, hk, hcontains, hlen, rfl⟩, rfl⟩
  have hl' := (created_holds hl hs hw).2
  -- what was written is read again to be compiled
  have hlook := Contents.lookup_concat hnew ⟨r.store.nextSeq, ⟨role, comment, clause⟩⟩
  have hget := hl'.get?_eq_ok.2 ⟨⟨k, hk⟩, fun d hd => Option.some.inj (hlook.symm.trans hd) ▸ hread,
    hlook.symm⟩
  have hview : st.view.definition? ⟨source, table, role, clause.kind⟩ = .ok (some ⟨role, comment, clause⟩) := by
    rw [Store.view_definition?, hget]
    rfl
  have happly := apply_of_ok (r := r) hw (PermissionCache.rebuild_object _ hview)
  have htable : requireTable source table r = (.ok (), r) := by
    rw [requireTable_of_known hσ, if_pos ht]
  unfold create
  rw [bind_of_ok (checkRole_of_named hnamed hadmin r), bind_of_ok htable]
  exact ⟨_, st, bind_of_ok happly, hl', hseq⟩

end Operation

namespace Replayable

variable {r : Registry PermissionCache} {l : Contents} {source table : String} {σ : Schema}
  {e : PermissionId × StoredDefinition}

/-- **The command of a definition that was stored** creates it behind all that is. -/
theorem runCommand (h : Replayable source table e) (hl : r.store.Holds l)
    (hn : r.store.nextSeq ≤ Number.maxNat) (hnew : e.1 ∉ l.map (·.1))
    (hσ : r.cache.backends.get? source = some σ) (ht : σ.tableExists table = true) :
    ∃ xs r', TableAccess.runCommand (e.2.definition.command source table) r = (.ok (Command.reply xs), r') ∧
      r'.store.Holds (l ++ [(e.1, ⟨r.store.nextSeq, e.2.definition⟩)]) ∧
      r'.store.nextSeq = r.store.nextSeq + 1 ∧ r'.cache.backends = r.cache.backends := by
  obtain ⟨⟨source', table', role, kind⟩, seq, ⟨role', comment, clause⟩⟩ := e
  obtain rfl : role' = role := h.role
  obtain rfl : clause.kind = kind := h.kind
  obtain rfl : source' = source := h.source
  obtain rfl : table' = table := h.table
  obtain ⟨o, st, hcreate, hl', hseq⟩ := Operation.create_of_new hl h.named h.notAdmin h.writable h.storable
    ⟨hn, h.readable.depth⟩ hnew hσ ht
  have hread := Command.read_export source' table' (d := ⟨role', comment, clause⟩) h.storable
  rw [TableAccess.runCommand, Definition.command,
    Script.ofJson_of_not_isList (Export.isList_command source' table' _), Script.run, hread]
  exact ⟨_, _, (Operation.bind_of_ok rfl).trans (Operation.bind_of_ok hcreate), hl', hseq,
    PermissionCache.backends_record _ _ _⟩

end Replayable

/-- **The commands of definitions that were stored create them again**, one behind the other. -/
theorem Registry.replay {r : Registry PermissionCache} {l es : Contents} {source table : String} {σ : Schema}
    (hes : ∀ e ∈ es, Replayable source table e) (hl : r.store.Holds l)
    (hn : r.store.nextSeq + es.length ≤ Number.maxNat + 1) (hnew : ((l ++ es).map (·.1)).Nodup)
    (hσ : r.cache.backends.get? source = some σ) (ht : σ.tableExists table = true) :
    ∃ replies r', (es.map fun e => e.2.definition.command source table).mapM runCommand r =
        (.ok replies, r') ∧ (∀ j ∈ replies, ∃ xs, j = Command.reply xs) ∧
      r'.store.Holds (l ++ es.numbered r.store.nextSeq) := by
  induction es generalizing r l with
  | nil => exact ⟨[], r, rfl, List.forall_mem_nil _, by simpa [Contents.numbered] using hl⟩
  | cons e es ih =>
    obtain ⟨he, hes⟩ := List.forall_mem_cons.1 hes
    rw [List.length_cons] at hn
    have hnewe : e.1 ∉ l.map (·.1) := by
      rw [List.map_append, List.nodup_append] at hnew
      exact fun hm => hnew.2.2 _ hm _ (List.mem_map_of_mem List.mem_cons_self) rfl
    obtain ⟨xs, r₁, hrun, hl₁, hseq, hbackends⟩ := he.runCommand hl (by omega) hnewe hσ ht
    obtain ⟨replies, r', hall, hreplies, hl'⟩ := ih (r := r₁) hes hl₁ (by rw [hseq]; omega) (by
      simpa using hnew) (hbackends ▸ hσ)
    refine ⟨Command.reply xs :: replies, r', ?_, List.forall_mem_cons.2 ⟨⟨xs, rfl⟩, hreplies⟩, ?_⟩
    · rw [List.map_cons, List.mapM_cons]
      exact (Operation.bind_of_ok hrun).trans (Operation.bind_of_ok hall)
    · rw [hseq, List.append_assoc] at hl'
      exact hl'

/-! ## The permissions of a table -/

namespace TablePermissions

/-- The permissions of a table are told by its names and by what they are for each kind. -/
theorem ext_ofKind {t t' : TablePermissions} (hs : t.source = t'.source) (ht : t.table = t'.table)
    (h : ∀ k, (t.ofKind k).toList = (t'.ofKind k).toList) : t = t' := by
  have hi := RoleMap.ext (h .insert)
  have hse := RoleMap.ext (h .select)
  have hu := RoleMap.ext (h .update)
  have hd := RoleMap.ext (h .delete)
  cases t
  cases t'
  simp only [ofKind] at hi hse hu hd
  simp only at hs ht
  rw [mk.injEq]
  exact ⟨hs, ht, hi, hse, hu, hd⟩

theorem names_of_addTo {t t' : TablePermissions} {d : Definition} (h : Store.addTo t d = .ok t') :
    t'.source = t.source ∧ t'.table = t.table := by
  unfold Store.addTo add? at h
  split at h
  next t₁ hadd =>
    obtain ⟨m, -, rfl⟩ := Option.map_eq_some_iff.1 hadd
    obtain rfl := Except.ok.inj h
    exact names_setKind t d.kind m
  next => cases h

theorem names_of_foldlM {found : Contents} {t t' : TablePermissions}
    (h : found.foldlM (fun t e => Store.addTo t e.2.definition) t = .ok t') :
    t'.source = t.source ∧ t'.table = t.table := by
  induction found generalizing t with
  | nil =>
    obtain rfl := pure_eq_ok.1 h
    exact ⟨rfl, rfl⟩
  | cons e found ih =>
    obtain ⟨t₁, hadd, h⟩ := bind_eq_ok.1 h
    obtain ⟨hs, ht⟩ := names_of_addTo hadd
    obtain ⟨hs', ht'⟩ := ih h
    exact ⟨hs'.trans hs, ht'.trans ht⟩

/-- What is gathered of a table has its names. -/
theorem names_of_tablePermissions {st : Store} {source table : String} {t : TablePermissions}
    (h : st.tablePermissions source table = .ok t) : t.source = source ∧ t.table = table := by
  obtain ⟨k, -, h⟩ := bind_eq_ok.1 h
  obtain ⟨found, -, h⟩ := bind_eq_ok.1 h
  exact names_of_foldlM h

/-- The commands of an export are those of the definitions, kind by kind. -/
theorem commands_toJson {t : TablePermissions} {l : Contents} {source table : String}
    (ht : ∀ k, (t.ofKind k).toList = (l.ofKind source table k).map fun e => (e.1.role, e.2.definition))
    (hf : ∀ e ∈ l, Filed e) :
    Export.commands source table t.toJson.canonical =
      (l.byKind source table).map fun e => e.2.definition.command source table := by
  rw [Export.commands, Contents.byKind, List.map_flatMap]
  refine congrArg (Kind.all.flatMap ·) (funext fun k => ?_)
  rw [entries_toJson, ht, List.map_map, List.map_map]
  refine List.map_congr_left fun e he => ?_
  obtain ⟨he, hid⟩ := List.mem_filter.1 he
  have hkind : e.2.definition.kind = k := (hf e he).kind.trans (of_decide_eq_true hid).2.2
  rw [Function.comp_apply, Function.comp_apply, Definition.command, hkind]

end TablePermissions

/-- There are no more definitions than numbers. -/
theorem Store.Holds.length_byKind_le {st : Store} {l : Contents} (h : st.Holds l)
    (hr : ∀ e ∈ l, e.2.Readable) (hf : ∀ e ∈ l, FiledForRole e) (source table : String) :
    (l.byKind source table).length ≤ Number.maxNat := by
  have hnodup : ((l.byKind source table).map (·.2.seq)).Nodup :=
    List.Nodup.map_on (fun e he e' he' hseq => h.eq_of_seq_eq (Contents.mem_byKind he).1
      (Contents.mem_byKind he').1 hseq) (h.nodup_byKind source table)
  have hsub : (l.byKind source table).map (·.2.seq) ⊆ List.range' 1 Number.maxNat := by
    intro n hn
    obtain ⟨e, he, rfl⟩ := List.mem_map.1 hn
    have he := (Contents.mem_byKind he).1
    have hpos : 0 < e.2.seq := (hf e he).numbered
    have hle : e.2.seq ≤ Number.maxNat := (hr e he).seq
    exact List.mem_range'_1.2 ⟨hpos, by omega⟩
  simpa using (hnodup.subperm hsub).length_le

/-- **Exports can be replayed.** Take the export of a table after any run, which has for each kind what is
stored of it, in order of insertion; and run its commands on an empty store and with any cache in whose schema
for the source the table exists. All of them succeed, and then the permissions of the table are the same: the
same definitions with the same comments, for each kind in the same order of roles. -/
theorem PermissionCache.export_replays (backends : SortedMap String Schema) {es : List Event}
    (hes : ∀ doc, Event.command doc ∈ es → doc.NumbersReadBack) {source table : String}
    (hsource : Key.NameFits source) (htable : Key.NameFits table) {c : PermissionCache} {σ : Schema}
    (hσ : c.backends.get? source = some σ) (ht : σ.tableExists table = true) :
    let r := es.foldl (Event.run PermissionCache.setBackend) ⟨.empty, .ofBackends backends⟩
    ∃ ds t, r.store.definitions = .ok ds ∧ r.store.tablePermissions source table = .ok t ∧
      (∀ k, (t.ofKind k).toList =
        (ds.filter fun e => e.1.source = source ∧ e.1.table = table ∧ e.1.kind = k).map fun e =>
          (e.1.role, e.2)) ∧
      ∃ replies r', (Export.commands source table t.toJson.canonical).mapM runCommand
          (⟨.empty, c⟩ : Registry PermissionCache) = (.ok replies, r') ∧
        (∀ j ∈ replies, ∃ xs, j = Command.reply xs) ∧
        r'.store.tablePermissions source table = .ok t := by
  intro r
  obtain ⟨l, hl⟩ := (Registry.Sound.empty_registry backends).run hes
  have hr : r = _ := (Event.foldl_watched es ⟨.empty, ⟨.ofBackends backends, true⟩⟩).symm
  have hwell : r.store.WellFiled := Store.WellFiled.empty.run hes
  rw [hr] at hwell ⊢
  have hfiled := hl.holds.filed hl.readable hwell
  obtain ⟨t, htab, hkind⟩ :=
    hl.holds.tablePermissions hl.readable (fun e he => (hfiled e he).toFiled) hsource htable
  have hes' : ∀ e ∈ l.byKind source table, Replayable source table e := by
    intro e he
    obtain ⟨hmem, hs, ht⟩ := Contents.mem_byKind he
    exact ⟨hfiled e hmem, hl.readable e hmem, hl.holds.storable e hmem, hs, ht⟩
  have hids : ((l.byKind source table).map (·.1)).Nodup :=
    List.Nodup.map_on (fun e he e' he' hid => hl.holds.eq_of_fst_eq (Contents.mem_byKind he).1
      (Contents.mem_byKind he').1 hid) (hl.holds.nodup_byKind source table)
  have hlen := hl.holds.length_byKind_le hl.readable hfiled source table
  obtain ⟨replies, r', hrun, hreplies, hl'⟩ := Registry.replay (r := ⟨.empty, c⟩) hes' .empty
    (by change 1 + _ ≤ Number.maxNat + 1; omega) hids hσ ht
  refine ⟨_, t, hl.holds.definitions_eq hl.readable, htab, fun k => ?_, replies, r', ?_, hreplies, ?_⟩
  · rw [hkind, Contents.ofKind, Contents.definitions, List.filter_map, List.map_map]
    rfl
  · rw [TablePermissions.commands_toJson hkind fun e he => (hfiled e he).toFiled]
    exact hrun
  -- the other store lists the same definitions for each kind
  have hback : ∀ e ∈ (l.byKind source table).numbered 1, e.2.Readable ∧ Filed e := by
    intro e he
    obtain ⟨e', hmem, hid, hd, hseq⟩ := Contents.exists_of_mem_numbered he
    have he' := hes' e' hmem
    exact ⟨⟨by omega, hd ▸ he'.readable.depth⟩, hid ▸ hd ▸ he'.role, hid ▸ hd ▸ he'.kind⟩
  obtain ⟨t', htab', hkind'⟩ := hl'.tablePermissions (fun e he => (hback e he).1)
    (fun e he => (hback e he).2) hsource htable
  obtain ⟨hs, ht⟩ := TablePermissions.names_of_tablePermissions htab
  obtain ⟨hs', ht'⟩ := TablePermissions.names_of_tablePermissions htab'
  rw [htab', TablePermissions.ext_ofKind (hs'.trans hs.symm) (ht'.trans ht.symm) fun k => ?_]
  rw [hkind', hkind, List.nil_append, Contents.ofKind_numbered, Contents.ofKind_byKind]

/-- Two roles get permissions on authors, and the first one is renewed without a comment. The export is run
where the filter no longer compiles. -/
theorem PermissionCache.export_replays_authors :
    let authors : ColumnType → Schema := fun t =>
      (Catalog.ofTables [⟨"author", [⟨"id", t⟩], [], []⟩]).schema
    let backends : SortedMap String Schema := .ofList [("default", authors .integer)]
    let c : PermissionCache := .ofBackends (.ofList [("default", authors .boolean)])
    let create : String → Json → Json := fun role comment => .obj [("args", .obj [("comment", comment),
        ("permission", .obj [("filter", .obj [("id", .obj [("_eq", .int 1)])])]),
        ("role", .str role), ("table", .str "author")]), ("type", .str "create_delete_permission")]
    let drop : Json := .obj [("args", .obj [("role", .str "user"), ("table", .str "author")]),
      ("type", .str "drop_delete_permission")]
    let es : List Event := [.command (create "user" (.str "own row")),
      .command (create "editor" (.str "any row")), .command drop, .command (create "user" .null)]
    (∀ doc, Event.command doc ∈ es → doc.NumbersReadBack) ∧ Key.NameFits "default" ∧
      Key.NameFits "author" ∧ c.backends.get? "default" = some (authors .boolean) ∧
      (authors .boolean).tableExists "author" = true ∧
      let r := es.foldl (Event.run PermissionCache.setBackend) ⟨.empty, .ofBackends backends⟩
      ∃ ds t, r.store.definitions = .ok ds ∧ r.store.tablePermissions "default" "author" = .ok t ∧
        (∀ k, (t.ofKind k).toList =
          (ds.filter fun e => e.1.source = "default" ∧ e.1.table = "author" ∧ e.1.kind = k).map fun e =>
            (e.1.role, e.2)) ∧
        ∃ replies r', (Export.commands "default" "author" t.toJson.canonical).mapM runCommand
            (⟨.empty, c⟩ : Registry PermissionCache) = (.ok replies, r') ∧
          (∀ j ∈ replies, ∃ xs, j = Command.reply xs) ∧
          r'.store.tablePermissions "default" "author" = .ok t := by
  intro authors backends c create drop es
  have hcreate : ∀ role comment, comment.numbers = [] → (create role comment).NumbersReadBack := by
    intro role comment hcomment n hn
    simp only [create, Json.numbers, Json.numbersOfEntries, hcomment, List.nil_append, List.append_nil] at hn
    obtain rfl : n = .int 1 := List.mem_singleton.1 hn
    exact Number.readsBack_int (by decide)
  have hes : ∀ doc, Event.command doc ∈ es → doc.NumbersReadBack := by
    intro doc hdoc
    obtain rfl | rfl | rfl | rfl : doc = create "user" (.str "own row") ∨
        doc = create "editor" (.str "any row") ∨ doc = drop ∨ doc = create "user" .null := by
      simpa [es] using hdoc
    · exact hcreate _ _ rfl
    · exact hcreate _ _ rfl
    · exact fun n hn => absurd hn List.not_mem_nil
    · exact hcreate _ _ rfl
  have hsource : Key.NameFits "default" := by unfold Key.NameFits; decide +kernel
  have htable : Key.NameFits "author" := by unfold Key.NameFits; decide +kernel
  have hσ : c.backends.get? "default" = some (authors .boolean) := by
    change (SortedMap.empty.insert "default" (authors .boolean)).get? "default" = _
    simp
  have ht : (authors .boolean).tableExists "author" = true := by decide +kernel
  exact ⟨hes, hsource, htable, hσ, ht, PermissionCache.export_replays backends hes hsource htable hσ ht⟩

end TableAccess
