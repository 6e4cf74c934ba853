import TableAccess.Proofs.Registry.Coherence
import TableAccess.Proofs.Registry.Numbering
import TableAccess.Proofs.Store.Ledger
import TableAccess.Proofs.Store.Table

/-!
# What a run leaves in the store

Nothing checks a definition's depth when it is written, nor the role and the kind of what is read. A run
still leaves only definitions in the store that can be read again, and each stands under an identity of
its own role and kind: what is created is filed under the identity that is made of it, and a comment is
changed in what was read under the same identity.

* `Store.WellFiled`: every definition that a store holds is filed where it belongs.
* `WellFiled.command`, `WellFiled.event`: what a command, and any other event, keeps.
* `Store.Intact`: all that is stored can be read, and how the store then answers.
* `PermissionCache.store_intact`: **after every run the store is intact.**
-/

namespace TableAccess

/-- A stored definition that is filed under its role, which can have one, with a key that could be written
and a number that was given to it. -/
structure FiledForRole (e : PermissionId × StoredDefinition) : Prop extends Filed e where
  named : e.1.role ≠ ""
  notAdmin : e.1.role ≠ adminRole
  writable : Key.Fits (Key.ofId e.1)
  numbered : 0 < e.2.seq

/-- **Every definition that the store holds is filed where it belongs.** -/
def Store.WellFiled (st : Store) : Prop := 0 < st.nextSeq ∧ ∃ l, st.Holds l ∧ ∀ e ∈ l, FiledForRole e

/-! ## Operations -/

namespace Operation

variable {γ α : Type}

theorem checkRole_eq_ok {role : String} {r r' : Registry γ} (h : checkRole role r = (.ok (), r')) :
    role ≠ "" ∧ role ≠ adminRole := by
  unfold checkRole at h
  split at h
  · cases h
  next hempty =>
    split at h
    · cases h
    next hadmin => exact ⟨fun hr => hempty (by rw [hr]; rfl), fun hr => hadmin (by rw [hr]; rfl)⟩

variable [SchemaCache γ]

/-- For a role that can have no permission nothing is created. -/
theorem create_role (source table role : String) (clause : Clause) (comment : Option String)
    (r : Registry γ) :
    (create source table role clause comment r).2 = r ∨ (role ≠ "" ∧ role ≠ adminRole) := by
  rcases checkRole_cases role r with ⟨e, h⟩ | h
  · exact .inl (by rw [create, bind_of_error h])
  · exact .inr (checkRole_eq_ok h)

/-- The store that is left is the one before the write, or the one behind it. -/
theorem apply_store (invalidation : Invalidation) (write : Transaction α) (r : Registry γ) :
    (apply invalidation write r).2.store = r.store ∨
      ∃ a, write r.store = .ok (a, (apply invalidation write r).2.store) := by
  rcases apply_after invalidation write r with h | ⟨a, st, report, c, hwrite, -, ⟨_, -, h⟩ | ⟨_, -, h | h⟩⟩
  · exact .inl (by rw [h])
  · exact .inr ⟨a, by rw [h]; exact hwrite⟩
  · exact .inl (by rw [h])
  · exact .inl (by rw [h])

end Operation

namespace Store.WellFiled

variable {γ α : Type} [SchemaCache γ] {r : Registry γ}

theorem empty : Store.empty.WellFiled := ⟨Nat.one_pos, [], .empty, List.forall_mem_nil _⟩

theorem apply (h : r.store.WellFiled) {invalidation : Invalidation} {write : Transaction α}
    (hw : ∀ a st, write r.store = .ok (a, st) → st.WellFiled) :
    (Operation.apply invalidation write r).2.store.WellFiled := by
  rcases Operation.apply_store invalidation write r with hr | ⟨a, hr⟩
  · rwa [hr]
  · exact hw a _ hr

theorem create (h : r.store.WellFiled) (source table role : String) {clause : Clause}
    (hc : clause.Storable) (comment : Option String) :
    (Operation.create source table role clause comment r).2.store.WellFiled := by
  rcases Operation.create_after source table role clause comment r with hr | ⟨-, hr⟩
  · rwa [hr]
  rcases Operation.create_role source table role clause comment r with hr' | ⟨hnamed, hadmin⟩
  · rwa [hr']
  rw [hr]
  refine h.apply fun _ st hw => ?_
  obtain ⟨hnext, l, hl, hfiled⟩ := h
  have hl' := (Operation.created_holds hl hc hw).2
  obtain ⟨k, hk, -, hlen, rfl⟩ := Operation.created_eq_ok.1 hw
  exact ⟨Nat.succ_pos _, _, hl',
    Contents.forall_mem_concat ⟨⟨rfl, rfl⟩, hnamed, hadmin, ⟨k, hk, hlen⟩, hnext⟩ hfiled⟩

theorem drop (h : r.store.WellFiled) (i : PermissionId) : (Operation.drop i r).2.store.WellFiled := by
  rcases Operation.drop_after i r with hr | hr
  · rwa [hr]
  rw [hr]
  refine h.apply fun _ st hw => ?_
  obtain ⟨hnext, l, hl, hfiled⟩ := h
  have hl' := Operation.dropped_holds hl hw
  obtain ⟨k, -, -, rfl⟩ := Operation.dropped_eq_ok.1 hw
  exact ⟨hnext, _, hl', Contents.forall_mem_without hfiled⟩

/-- A comment is changed in the definition that is found, so the role and the kind stay. -/
theorem setComment (h : r.store.WellFiled) (i : PermissionId) (comment : Option String) :
    (Operation.setComment i comment r).2.store.WellFiled := by
  rcases Operation.setComment_after i comment r with hr | hr
  · rwa [hr]
  rw [hr]
  refine h.apply fun _ st hw => ?_
  obtain ⟨hnext, l, hl, hfiled⟩ := h
  obtain ⟨d, hd, hl'⟩ := Operation.commented_holds hl hw
  have hi := hfiled _ ((Contents.lookup_eq_some_iff hl.ids).1 hd)
  obtain ⟨_, k, -, -, -, rfl⟩ := Operation.commented_eq_ok.1 hw
  exact ⟨hnext, _, hl', Contents.forall_mem_replace
    ⟨⟨hi.role, hi.kind⟩, hi.named, hi.notAdmin, hi.writable, hi.numbered⟩ hfiled⟩

theorem untrack (h : r.store.WellFiled) (source table : String) :
    (Operation.untrack source table r).2.store.WellFiled := by
  rcases Operation.untrack_after source table r with hr | hr
  · rwa [hr]
  rw [hr]
  refine h.apply fun _ st hw => ?_
  obtain ⟨hnext, l, hl, hfiled⟩ := h
  obtain ⟨-, hl', -, hseq⟩ := hl.untrack (Operation.untracked_eq_ok.1 hw).2
  exact ⟨hseq ▸ hnext, _, hl', fun e he => hfiled e (List.mem_filter.1 he).1⟩

theorem track (h : r.store.WellFiled) (source table : String) :
    (Operation.track source table r).2.store.WellFiled := by
  obtain ⟨tracked, hr⟩ := Operation.track_after source table r
  obtain ⟨hnext, l, hl, hfiled⟩ := h
  rw [hr]
  exact ⟨hnext, l, hl.of_permissions rfl rfl, hfiled⟩

/-- **A command keeps every definition filed where it belongs**, whether it succeeds or fails. -/
theorem command (h : r.store.WellFiled) {c : Command} (hc : c.Storable) : (c.run r).2.store.WellFiled := by
  cases c with
  | create _ source table role clause comment =>
    rw [Command.run, Operation.bind_after fun _ _ => rfl]
    exact h.create source table role hc comment
  | drop i =>
    rw [Command.run, Operation.bind_after fun _ _ => rfl]
    exact h.drop i
  | setComment i comment =>
    rw [Command.run, Operation.bind_after fun _ _ => rfl]
    exact h.setComment i comment
  | track source table =>
    rw [Command.run, Operation.bind_after fun _ _ => rfl]
    exact h.track source table
  | untrack source table =>
    rw [Command.run, Operation.bind_after fun _ _ => rfl]
    exact h.untrack source table

/-! ## Runs -/

theorem event (h : r.store.WellFiled) {set : γ → String → Schema → γ} {e : Event}
    (he : ∀ doc, e = .command doc → doc.NumbersReadBack) : (e.run set r).store.WellFiled := by
  cases e with
  | command doc =>
    exact runCommand_keeps (P := fun r => r.store.WellFiled) (fun c r hc hr => hr.command hc)
      (he doc rfl) h
  | setBackend source σ => exact h
  | rebuild => exact h

theorem run (h : r.store.WellFiled) {set : γ → String → Schema → γ} {es : List Event}
    (hes : ∀ doc, Event.command doc ∈ es → doc.NumbersReadBack) :
    (es.foldl (Event.run set) r).store.WellFiled := by
  induction es generalizing r with
  | nil => exact h
  | cons e es ih =>
    refine ih (h.event fun doc he => hes doc (he ▸ List.mem_cons_self)) fun doc hdoc => ?_
    exact hes doc (List.mem_cons_of_mem _ hdoc)

end Store.WellFiled

/-! ## What is left -/

/-- **All that is stored can be read**, stands where it belongs, and is the list `l` in order of
insertion. -/
structure Store.Intact (st : Store) (l : Contents) : Prop where
  /-- Every key is that of a permission, and its text reads as a stored definition. -/
  bindings : ∀ b ∈ st.permissions.toList, ∃ e ∈ l, Key.id? b.1 = some e.1 ∧ Store.decode b.2 = .ok e.2
  filed : ∀ e ∈ l, e.2.definition.role = e.1.role ∧ e.2.definition.clause.kind = e.1.kind ∧
    e.1.role ≠ "" ∧ e.1.role ≠ adminRole
  increasing : l.Pairwise fun a b => a.2.seq < b.2.seq
  used : ∀ e ∈ l, e.2.seq < st.nextSeq
  /-- No scan fails, whatever it is for. -/
  scans : ∀ start, st.startingWith start = .ok (l.filter fun e => Key.starts start e.1)
  /-- The list is all that is stored. -/
  scanAll : st.startingWith [] = .ok l
  definitions : st.definitions = .ok (l.map fun e => (e.1, e.2.definition))
  listAll : st.list none = .ok (l.map fun e => (e.1, e.2.definition))
  /-- The permissions of a table are what is stored of it. -/
  tables : ∀ source table, Key.NameFits source → Key.NameFits table →
    ∃ t, st.tablePermissions source table = .ok t ∧ ∀ k, (t.ofKind k).toList =
      (l.ofKind source table k).map fun e => (e.1.role, e.2.definition)

/-- What can be read from a store is the list that is filed where it belongs. -/
theorem Store.Holds.filed {st : Store} {l : Contents} (h : st.Holds l) (hr : ∀ e ∈ l, e.2.Readable)
    (hf : st.WellFiled) : ∀ e ∈ l, FiledForRole e := by
  obtain ⟨-, l', hl', hfiled⟩ := hf
  obtain ⟨-, rfl⟩ := hl'.startingWith_eq_ok.1 (h.startingWith_nil hr)
  exact fun e he => hfiled e (List.mem_filter.1 he).1

/-- A store whose list can be read and is filed where it belongs is intact. -/
theorem Store.Holds.intact {st : Store} {l : Contents} (h : st.Holds l) (hr : ∀ e ∈ l, e.2.Readable)
    (hf : st.WellFiled) : st.Intact l := by
  have hscan := h.startingWith_nil hr
  have hfiled := h.filed hr hf
  refine ⟨fun b hb => ?_, fun e he => ?_, h.increasing, h.used, fun start => ?_, hscan,
    h.definitions_eq hr, ?_, fun source table hs ht => ?_⟩
  · obtain ⟨e, he, hk, htext⟩ := (h.bindings b.1 b.2).1 (SortedMap.mem_iff_get?.1 hb)
    exact ⟨e, he, Key.id?_ofId hk,
      htext ▸ (StoredDefinition.decode_text_eq_ok (h.storable e he)).2 ⟨hr e he, rfl⟩⟩
  · have hfe := hfiled e he
    exact ⟨hfe.role, hfe.kind, hfe.named, hfe.notAdmin⟩
  · exact h.startingWith_eq_ok.2 ⟨fun e he => hr e (List.mem_filter.1 he).1, rfl⟩
  · simp only [Store.list, pure_bind, hscan, ok_bind]
    rfl
  · exact h.tablePermissions hr (fun e he => (hfiled e he).toFiled) hs ht

/-- **After every run the store is intact.** Run an empty registry on any sources, through command
documents whose numbers read back, other schemas for its sources and rebuilds. Then all that is stored can
be read and stands where it belongs, and everything can be compiled again. The next number counts what the run
has inserted, so the numbers have 64 bits in every run with fewer than `2 ^ 64 - 1` insertions. -/
theorem PermissionCache.store_intact (backends : SortedMap String Schema) {es : List Event}
    (hes : ∀ doc, Event.command doc ∈ es → doc.NumbersReadBack) :
    let start : Registry PermissionCache := ⟨.empty, .ofBackends backends⟩
    let r := es.foldl (Event.run PermissionCache.setBackend) start
    (∃ l, r.store.Intact l) ∧ (∃ xs, (r.cache.rebuild r.store.view .full).1 = .ok xs) ∧
      r.store.nextSeq = (Event.deedsAll start es).countP Deed.creates + 1 := by
  intro start r
  have hseq : start.store.nextSeq = List.countP Deed.creates [] + 1 := rfl
  have hcount : r.store.nextSeq = _ := Event.nextSeq_run hseq es
  obtain ⟨l, hl⟩ := (Registry.Sound.empty_registry backends).run hes
  have hr : r = _ := (Event.foldl_watched es ⟨.empty, ⟨.ofBackends backends, true⟩⟩).symm
  have hfiled : r.store.WellFiled := Store.WellFiled.empty.run hes
  rw [hr] at hfiled hcount ⊢
  have hintact := hl.holds.intact hl.readable hfiled
  refine ⟨⟨l, hintact⟩, ?_, hcount⟩
  have hdefinitions : (Registry.map Watched.cache _).store.view.definitions = .ok _ := hintact.definitions
  rw [PermissionCache.rebuild, hdefinitions]
  exact ⟨_, rfl⟩

/-- Permissions on authors are created for two roles, of which one can have none, another comment is given,
and everything is compiled against another schema. -/
theorem PermissionCache.store_intact_authors :
    let authors : ColumnType → Schema := fun t =>
      (Catalog.ofTables [⟨"author", [⟨"id", t⟩], [], []⟩]).schema
    let backends : SortedMap String Schema := .ofList [("default", authors .integer)]
    let create : String → Json := fun role => .obj [("args",
      .obj [("permission", .obj [("filter", .obj [("id", .obj [("_eq", .int 1)])])]),
        ("role", .str role), ("table", .str "author")]), ("type", .str "create_delete_permission")]
    let comment : Json := .obj [("args", .obj [("comment", .str "own rows"), ("permission", .str "delete"),
      ("role", .str "user"), ("table", .str "author")]), ("type", .str "set_permission_comment")]
    let es : List Event := [.command (create "user"), .command (create "admin"), .command comment,
      .setBackend "default" (authors .boolean), .rebuild]
    let start : Registry PermissionCache := ⟨.empty, .ofBackends backends⟩
    let r := es.foldl (Event.run PermissionCache.setBackend) start
    (∀ doc, Event.command doc ∈ es → doc.NumbersReadBack) ∧
      (∃ l, r.store.Intact l) ∧ (∃ xs, (r.cache.rebuild r.store.view .full).1 = .ok xs) ∧
      r.store.nextSeq = (Event.deedsAll start es).countP Deed.creates + 1 := by
  intro authors backends create comment es start r
  have hcreate : ∀ role, (create role).NumbersReadBack := by
    intro role n hn
    obtain rfl : n = .int 1 := List.mem_singleton.1 hn
    exact Number.readsBack_int (by decide)
  have hes : ∀ doc, Event.command doc ∈ es → doc.NumbersReadBack := by
    intro doc hdoc
    obtain rfl | rfl | rfl : doc = create "user" ∨ doc = create "admin" ∨ doc = comment := by
      simpa [es] using hdoc
    · exact hcreate "user"
    · exact hcreate "admin"
    · exact fun n hn => absurd hn List.not_mem_nil
  exact ⟨hes, PermissionCache.store_intact backends hes⟩

end TableAccess
