import TableAccess.Proofs.Registry.Faithful
import TableAccess.Proofs.Registry.Run
import TableAccess.Schema.Catalog

/-!
# What can be removed

A stored permission is removed by dropping it, and with all others of its table by untracking the table.
Dropping needs the table in the schema of its source, and untracking needs it tracked; a schema that is
replaced can take the first away, and nothing ever made the second true of a table whose permissions were
created without tracking it. Nothing else stands in the way: all that is stored can be read, and its source
is known.

* `Store.Has`: something is stored for a permission.
* `Registry.Anchored`: all that is stored can be read and its source is known. `Anchored.run`: **what a run
  keeps, whatever schemas its sources get.**
* `Anchored.drop_eq`, `Anchored.untrack_eq`: **exactly when a stored permission can be removed**, and what is
  left.
* `PermissionCache.removable`: the same, after any run.
-/

namespace TableAccess

/-- **Something is stored for the permission.** -/
def Store.Has (st : Store) (i : PermissionId) : Prop :=
  ∃ k, Key.ofId i = .ok k ∧ st.permissions.contains k = true

namespace Store

variable {st st' : Store} {i j : PermissionId} {k : Key}

theorem has_iff (hk : Key.ofId i = .ok k) : st.Has i ↔ ∃ text, (k, text) ∈ st.permissions.toList := by
  have hcontains : st.Has i ↔ st.permissions.contains k = true := by
    constructor
    · rintro ⟨k', hk', h⟩
      obtain rfl := Except.ok.inj (hk.symm.trans hk')
      exact h
    · exact fun h => ⟨k, hk, h⟩
  simp only [hcontains, SortedMap.contains, Option.isSome_iff_exists, SortedMap.mem_iff_get?]

theorem not_has_empty : ¬ Store.empty.Has i := by
  rintro ⟨k, -, h⟩
  cases h

theorem Has.of_subset (h : st'.Has i) (hs : st'.permissions.toList ⊆ st.permissions.toList) : st.Has i := by
  obtain ⟨k, hk, -⟩ := id h
  obtain ⟨text, htext⟩ := (has_iff hk).1 h
  exact (has_iff hk).2 ⟨text, hs htext⟩

/-- Writing under a permission stores something for it, and for no other. -/
theorem Has.of_write (h : st'.Has j) (hk : Key.ofId i = .ok k) {text : String}
    (hp : st'.permissions = st.permissions.insert k text) : j = i ∨ st.Has j := by
  obtain ⟨k', hk', -⟩ := id h
  obtain ⟨text', hmem⟩ := (has_iff hk').1 h
  rw [hp] at hmem
  rcases SortedMap.mem_put hmem with heq | hmem
  · obtain ⟨rfl, -⟩ := Prod.mk.inj heq
    exact .inl (Key.ofId_injective hk' hk)
  · exact .inr ((has_iff hk').2 ⟨text', hmem⟩)

/-- Erasing the key of a permission removes it, and no other. -/
theorem has_erase (hk : Key.ofId i = .ok k) (hp : st'.permissions = st.permissions.erase k) :
    st'.Has j ↔ st.Has j ∧ j ≠ i := by
  have hne : ∀ {k'}, Key.ofId j = .ok k' → (compare k' k = .eq ↔ j = i) := by
    intro k' hk'
    constructor
    · intro hc
      exact Key.ofId_injective hk' (Std.LawfulEqCmp.eq_of_compare hc ▸ hk)
    · rintro rfl
      rw [Except.ok.inj (hk'.symm.trans hk)]
      exact Std.ReflCmp.compare_self
  constructor
  · rintro ⟨k', hk', h⟩
    rw [hp, SortedMap.contains, SortedMap.get?_erase] at h
    split at h
    next => cases h
    next hc => exact ⟨⟨k', hk', h⟩, fun hji => hc ((hne hk').2 hji)⟩
  · rintro ⟨⟨k', hk', h⟩, hji⟩
    refine ⟨k', hk', ?_⟩
    rw [hp, SortedMap.contains, SortedMap.get?_erase, if_neg fun hc => hji ((hne hk').1 hc)]
    exact h

/-- In a store that can be read, what is stored is found. -/
theorem Legible.has_iff_get? (h : st.Legible) : st.Has i ↔ ∃ d, st.get? i = .ok (some d) := by
  constructor
  · rintro hi
    obtain ⟨k, hk, -⟩ := id hi
    obtain ⟨text, hmem⟩ := (has_iff hk).1 hi
    obtain ⟨e, he⟩ := h.exists_entry hmem
    obtain ⟨hk', hget⟩ := (h.entry_eq_ok hmem).1 he
    obtain rfl := Key.ofId_injective hk hk'
    exact ⟨e.2, hget⟩
  · rintro ⟨d, hd⟩
    obtain ⟨k, text, hk, htext, -⟩ := get?_eq_some_iff.1 hd
    exact (has_iff hk).2 ⟨text, SortedMap.mem_iff_get?.2 htext⟩

/-- **A scan of a store that can be read** succeeds and finds what is stored under keys with that start. -/
theorem Legible.exists_startingWith (h : st.Legible) (start : Key) : ∃ found : Contents,
    st.startingWith start = .ok found ∧ ∀ i, i ∈ found.map (·.1) ↔ st.Has i ∧ Key.starts start i = true := by
  have hsub : ∀ b ∈ st.permissions.toList.filter fun b => start.isPrefixOf b.1,
      b ∈ st.permissions.toList ∧ start.isPrefixOf b.1 = true := fun b hb => List.mem_filter.1 hb
  obtain ⟨found, hf⟩ := exists_mapM_eq_ok fun b hb => h.exists_entry (hsub b hb).1
  have hperm := List.mergeSort_perm found fun a b => decide (a.2.seq ≤ b.2.seq)
  refine ⟨found.mergeSort fun a b => a.2.seq ≤ b.2.seq, ?_, fun i => ?_⟩
  · simp only [startingWith, hf, ok_bind]
    rfl
  rw [(hperm.map (·.1)).mem_iff, List.mem_map]
  constructor
  · rintro ⟨e, he, rfl⟩
    obtain ⟨b, hb, hbe⟩ := mem_of_mapM hf he
    obtain ⟨hmem, hstart⟩ := hsub b hb
    obtain ⟨hk, -⟩ := (h.entry_eq_ok hmem).1 hbe
    exact ⟨(has_iff hk).2 ⟨b.2, hmem⟩, (Key.starts_of_ofId hk).trans hstart⟩
  · rintro ⟨hi, hstart⟩
    obtain ⟨k, hk, -⟩ := id hi
    obtain ⟨text, hmem⟩ := (has_iff hk).1 hi
    rw [Key.starts_of_ofId hk] at hstart
    obtain ⟨e, he, hbe⟩ := ok_of_mem_mapM hf (List.mem_filter.2 ⟨hmem, hstart⟩)
    obtain ⟨hk', -⟩ := (h.entry_eq_ok hmem).1 hbe
    exact ⟨e, he, Key.ofId_injective hk' hk⟩

end Store

/-- Removing permissions that have keys succeeds, and removes no other. -/
theorem Transaction.exists_removeAll {is : List PermissionId} (his : ∀ i ∈ is, ∃ k, Key.ofId i = .ok k)
    (st : Store) : ∃ st', removeAll is st = .ok ((), st') ∧ ∀ j, st'.Has j ↔ st.Has j ∧ j ∉ is := by
  induction is generalizing st with
  | nil => exact ⟨st, rfl, fun j => by simp⟩
  | cons i is ih =>
    obtain ⟨⟨k, hk⟩, his⟩ := List.forall_mem_cons.1 his
    obtain ⟨st', hst', hhas⟩ := ih his { st with permissions := st.permissions.erase k }
    refine ⟨st', ?_, fun j => ?_⟩
    · exact bind_eq_ok.2 ⟨_, _, remove_eq_ok.2 ⟨k, hk, rfl, rfl⟩, hst'⟩
    · rw [hhas, Store.has_erase hk rfl, List.mem_cons, not_or, and_assoc]

/-! ## What a run keeps -/

/-- **All that the registry has stored can be read, and its source is known.** -/
structure Registry.Anchored (r : Registry PermissionCache) : Prop where
  legible : r.store.Legible
  known : ∀ i, r.store.Has i → ∃ σ, r.cache.backends.get? i.source = some σ

namespace Registry.Anchored

variable {r : Registry PermissionCache} {st : Store} {c : PermissionCache} {i : PermissionId}

theorem empty (c : PermissionCache) : Anchored ⟨.empty, c⟩ :=
  ⟨.empty, fun _ h => absurd h Store.not_has_empty⟩

/-- Removing something keeps what is left readable, and making a source known takes none away. -/
theorem of_subset (h : r.Anchored) (hs : st.permissions.toList ⊆ r.store.permissions.toList)
    (hc : ∀ source σ, r.cache.backends.get? source = some σ → ∃ σ', c.backends.get? source = some σ') :
    Anchored ⟨st, c⟩ where
  legible := h.legible.of_subset hs
  known i hi := by
    obtain ⟨σ, hσ⟩ := h.known i (hi.of_subset hs)
    exact hc _ _ hσ

/-- Writing something that can be read again, of a source that is known. -/
theorem write (h : r.Anchored) {d : StoredDefinition} (hd : Inscribed (i, d)) {k : Key}
    (hk : Key.ofId i = .ok k) (hp : st.permissions = r.store.permissions.insert k d.toJson.text)
    (hc : c.backends = r.cache.backends) (hi : ∃ σ, r.cache.backends.get? i.source = some σ) :
    Anchored ⟨st, c⟩ where
  legible := h.legible.write hd hk hp
  known j hj := by
    show ∃ σ, c.backends.get? j.source = some σ
    rw [hc]
    rcases hj.of_write hk hp with rfl | hj
    · exact hi
    · exact h.known j hj

/-- **A command keeps a registry anchored**, whether it succeeds or fails. -/
theorem command (h : r.Anchored) {c : Command} (hc : c.Free Number.IsSound) : (c.run r).2.Anchored := by
  have hstep := c.step hc r
  generalize (c.run r).2 = r' at hstep ⊢
  cases hstep with
  | same => exact h
  | created hσ hd hk hp _ _ =>
    exact h.write hd hk hp (PermissionCache.backends_record _ _ _) (hσ.imp fun _ h => h.1)
  | @commented i d comment _ _ hd hk hp _ =>
    have hi : r.store.Has i := h.legible.has_iff_get?.2 ⟨d, hd⟩
    exact h.write ((h.legible.inscribed hd).setComment comment) hk hp
      (PermissionCache.backends_bump _ _) (h.known i hi)
  | @removed st _ _ hs _ hrebuild =>
    refine h.of_subset hs fun source σ hσ => ⟨σ, ?_⟩
    have hbackends := PermissionCache.backends_rebuild r.cache st.view .full
    rw [hrebuild] at hbackends
    rwa [hbackends]
  | tracked _ => exact h.of_subset (List.Subset.refl _) fun _ σ hσ => ⟨σ, hσ⟩

/-- **An event keeps a registry anchored**; a source that gets another schema stays known. -/
theorem event (h : r.Anchored) {e : Event}
    (he : ∀ doc, e = .command doc → doc.AllNumbers Number.IsSound) :
    (e.run PermissionCache.setBackend r).Anchored := by
  cases e with
  | command doc => exact runCommand_keeps (fun _ _ hc hr => hr.command hc) (he doc rfl) h
  | setBackend source σ =>
    refine h.of_subset (List.Subset.refl _) fun source' σ' hσ' => ?_
    show ∃ σ'', (r.cache.backends.insert source σ).get? source' = some σ''
    rw [SortedMap.get?_insert]
    split
    · exact ⟨σ, rfl⟩
    · exact ⟨σ', hσ'⟩
  | rebuild =>
    refine h.of_subset (List.Subset.refl _) fun source' σ' hσ' => ⟨σ', ?_⟩
    show (r.cache.rebuild r.store.view .full).2.backends.get? source' = some σ'
    rwa [PermissionCache.backends_rebuild]

/-- **A run keeps a registry anchored.** -/
theorem run (h : r.Anchored) {es : List Event}
    (hes : ∀ doc, Event.command doc ∈ es → doc.AllNumbers Number.IsSound) :
    (es.foldl (Event.run PermissionCache.setBackend) r).Anchored := by
  induction es generalizing r with
  | nil => exact h
  | cons e es ih =>
    have he : (e.run PermissionCache.setBackend r).Anchored :=
      h.event fun doc hdoc => hes doc (hdoc ▸ List.mem_cons_self)
    exact ih he fun doc hdoc => hes doc (List.mem_cons_of_mem _ hdoc)

end Registry.Anchored

/-! ## Removing -/

namespace Operation

variable {source table : String}

/-- A table that is not tracked is not untracked. -/
theorem untracked_of_not_tracked {st : Store} (h : st.isTracked source table = .ok false) :
    untracked source table st = .error ⟨[], .rule (.tableNotFound source table)⟩ := by
  unfold untracked Transaction.isTracked Transaction.look
  show (st.isTracked source table >>= _) >>= _ = _
  rw [h]
  rfl

end Operation

namespace Registry.Anchored

variable {r : Registry PermissionCache} {i : PermissionId} {σ : Schema}

/-- What is left after a removal can be compiled. -/
theorem exists_rebuild (h : r.Anchored) {st : Store}
    (hs : st.permissions.toList ⊆ r.store.permissions.toList) :
    ∃ xs c, r.cache.rebuild st.view .full = (.ok xs, c) := by
  obtain ⟨l, hl, -⟩ := (h.legible.of_subset hs).exists_contents
  have hview : st.view.definitions = .ok l.definitions := hl
  exact ⟨_, _, by rw [PermissionCache.rebuild, hview]⟩

/-- **A stored permission is dropped exactly if its table exists**, and then no other is. -/
theorem drop_eq (h : r.Anchored) (hi : r.store.Has i) (hσ : r.cache.backends.get? i.source = some σ) :
    if σ.tableExists i.table then
      ∃ r', Operation.drop i r = (.ok ⟨i, none⟩, r') ∧ ∀ j, r'.store.Has j ↔ r.store.Has j ∧ j ≠ i
    else Operation.drop i r = (.error ⟨[], .rule (.tableNotFound i.source i.table)⟩, r) := by
  have htable := Operation.requireTable_of_known (r := r) hσ i.table
  obtain ⟨k, hk, hcontains⟩ := hi
  split at htable
  next =>
    have hw : Operation.dropped i r.store =
        .ok ((), { r.store with permissions := r.store.permissions.erase k }) :=
      Operation.dropped_eq_ok.2 ⟨k, hk, hcontains, rfl⟩
    obtain ⟨xs, c, hc⟩ := h.exists_rebuild (Operation.dropped_subset hw)
    have happly := Operation.apply_of_ok (r := r) hw hc
    rw [if_pos ‹_›]
    refine ⟨⟨{ r.store with permissions := r.store.permissions.erase k }, c⟩, ?_,
      fun j => Store.has_erase hk rfl⟩
    unfold Operation.drop
    rw [Operation.bind_of_ok htable]
    exact Operation.bind_of_ok happly
  next =>
    rw [if_neg ‹_›]
    unfold Operation.drop
    exact Operation.bind_of_error htable

/-- **A table with a stored permission is untracked exactly if it is tracked**, and then all of its
permissions are removed and no others. -/
theorem untrack_eq (h : r.Anchored) (hi : r.store.Has i) : ∃ tracked,
    r.store.isTracked i.source i.table = .ok tracked ∧
    if tracked then
      ∃ is r', Operation.untrack i.source i.table r = (.ok is, r') ∧
        (∀ j, j ∈ is ↔ r.store.Has j ∧ j.source = i.source ∧ j.table = i.table) ∧
        ∀ j, r'.store.Has j ↔ r.store.Has j ∧ ¬ (j.source = i.source ∧ j.table = i.table)
    else Operation.untrack i.source i.table r =
      (.error ⟨[], .rule (.tableNotFound i.source i.table)⟩, r) := by
  obtain ⟨σ, hσ⟩ := h.known i hi
  have hschema : Operation.schemaOf i.source r = (.ok σ, r) := by
    have hknown : SchemaCache.schema? r.cache i.source = some σ := hσ
    rw [Operation.schemaOf_apply, hknown]
  -- the names of a stored permission fit into a key, so its table has one
  obtain ⟨start, hstart⟩ : ∃ start, Key.ofTable i.source i.table = .ok start := by
    obtain ⟨k, hk, -⟩ := hi
    obtain ⟨hfits, -⟩ := Key.ofParts_eq_ok.1 hk
    exact ⟨_, Key.ofParts_eq_ok.2 ⟨fun s hs => hfits s (by
      rcases List.mem_pair.1 hs with rfl | rfl <;> simp), rfl⟩⟩
  refine ⟨r.store.tracked.contains start, by rw [Store.isTracked, hstart]; rfl, ?_⟩
  have htracked : r.store.isTracked i.source i.table = .ok (r.store.tracked.contains start) := by
    rw [Store.isTracked, hstart]
    rfl
  have hstarts : ∀ j, r.store.Has j →
      (Key.starts start j = true ↔ j.source = i.source ∧ j.table = i.table) := by
    rintro j ⟨k, hk, -⟩
    exact Key.starts_ofTable hstart hk
  split
  next ht =>
    rw [ht] at htracked
    obtain ⟨found, hfound, hmem⟩ := h.legible.exists_startingWith start
    have hkeys : ∀ j ∈ found.map (·.1), ∃ k, Key.ofId j = .ok k := fun j hj =>
      ((hmem j).1 hj).1.imp fun _ hk => hk.1
    obtain ⟨st, hremove, hhas⟩ := Transaction.exists_removeAll hkeys r.store
    have hw : Operation.untracked i.source i.table r.store =
        .ok (found.map (·.1), { st with tracked := st.tracked.erase start }) :=
      Operation.untracked_eq_ok.2 ⟨htracked,
        Transaction.untrack_eq_ok.2 ⟨start, found, st, hstart, hfound, rfl, hremove, rfl⟩⟩
    obtain ⟨xs, c, hc⟩ := h.exists_rebuild (Operation.untracked_subset hw)
    have happly := Operation.apply_of_ok (r := r) hw hc
    refine ⟨found.map (·.1), ⟨{ st with tracked := st.tracked.erase start }, c⟩, ?_, fun j => ?_,
      fun j => ?_⟩
    · unfold Operation.untrack
      rw [Operation.bind_of_ok hschema]
      exact Operation.bind_of_ok happly
    · rw [hmem]
      exact and_congr_right fun hj => hstarts j hj
    · refine (hhas j).trans (and_congr_right fun hj => ?_)
      rw [hmem, hstarts j hj, not_and]
      exact ⟨fun hn => hn hj, fun hn _ => hn⟩
  next ht =>
    rw [Bool.eq_false_of_not_eq_true ht] at htracked
    have hw := Operation.untracked_of_not_tracked htracked
    have happly : Operation.apply .full (Operation.untracked i.source i.table) r = _ :=
      Operation.apply_of_error hw
    unfold Operation.untrack
    rw [Operation.bind_of_ok hschema]
    exact Operation.bind_of_error happly

end Registry.Anchored

/-- **What a run has stored can be removed exactly while its table exists or is tracked.** Run an empty
store, on any cache, through command documents and other schemas for its sources. Of every stored permission
the source is known. Dropping it succeeds if its table is in the schema that the source has now, and removes
it and no other; untracking its table succeeds if the table is tracked, and removes the permissions of the
table and no others. Otherwise either says that there is no such table, and changes nothing. -/
theorem PermissionCache.removable (c : PermissionCache) {es : List Event}
    (hes : ∀ doc, Event.command doc ∈ es → doc.AllNumbers Number.IsSound) {i : PermissionId}
    (hi : (es.foldl (Event.run PermissionCache.setBackend) ⟨.empty, c⟩).store.Has i) :
    let r := es.foldl (Event.run PermissionCache.setBackend) ⟨.empty, c⟩
    ∃ σ tracked, r.cache.backends.get? i.source = some σ ∧
      r.store.isTracked i.source i.table = .ok tracked ∧
      (if σ.tableExists i.table then
        ∃ r', Operation.drop i r = (.ok ⟨i, none⟩, r') ∧ ∀ j, r'.store.Has j ↔ r.store.Has j ∧ j ≠ i
      else Operation.drop i r = (.error ⟨[], .rule (.tableNotFound i.source i.table)⟩, r)) ∧
      (if tracked then
        ∃ is r', Operation.untrack i.source i.table r = (.ok is, r') ∧
          (∀ j, j ∈ is ↔ r.store.Has j ∧ j.source = i.source ∧ j.table = i.table) ∧
          ∀ j, r'.store.Has j ↔ r.store.Has j ∧ ¬ (j.source = i.source ∧ j.table = i.table)
      else Operation.untrack i.source i.table r =
        (.error ⟨[], .rule (.tableNotFound i.source i.table)⟩, r)) := by
  intro r
  have h : r.Anchored := (Registry.Anchored.empty c).run hes
  obtain ⟨σ, hσ⟩ := h.known i hi
  obtain ⟨tracked, htracked, huntrack⟩ := h.untrack_eq hi
  exact ⟨σ, tracked, hσ, htracked, h.drop_eq hi hσ, huntrack⟩

/-- The authors' table is tracked, gets a permission and leaves the schema. -/
theorem PermissionCache.removable_authors :
    let authors : Schema := (Catalog.ofTables [⟨"author", [⟨"id", .integer⟩], [], []⟩]).schema
    let track : Json := .obj [("args", .obj [("table", .str "author")]), ("type", .str "track_table")]
    let create : Json := .obj [("args",
      .obj [("permission", .obj [("filter", .obj [("id", .obj [("_eq", .int 1)])])]),
        ("role", .str "user"), ("table", .str "author")]), ("type", .str "create_delete_permission")]
    let es : List Event :=
      [.command track, .command create, .setBackend "default" (Catalog.ofTables []).schema]
    let start : Registry PermissionCache := ⟨.empty, .ofBackends (.ofList [("default", authors)])⟩
    let r := es.foldl (Event.run PermissionCache.setBackend) start
    let i : PermissionId := ⟨"default", "author", "user", .delete⟩
    (∀ doc, Event.command doc ∈ es → doc.AllNumbers Number.IsSound) ∧ r.store.Has i ∧
      ∃ is r', Operation.untrack "default" "author" r = (.ok is, r') ∧ ¬ r'.store.Has i := by
  intro authors track create es start r i
  have hes : ∀ doc, Event.command doc ∈ es → doc.AllNumbers Number.IsSound := by
    intro doc hdoc
    obtain rfl | rfl : doc = track ∨ doc = create := by simpa [es] using hdoc
    · exact fun n hn => absurd hn List.not_mem_nil
    · intro n hn
      obtain rfl : n = .int 1 := List.mem_singleton.1 hn
      exact (by decide : Number.isInteger 1 = true)
  have htrack : Script.isList track = false := by decide +kernel
  have hcreate : Script.isList create = false := by decide +kernel
  have hr : r = ((Script.single create).run ((Script.single track).run start).2).2.map
      (PermissionCache.setBackend · "default" (Catalog.ofTables []).schema) := by
    simp only [r, es, List.foldl_cons, List.foldl_nil, Event.run, runCommand, Registry.map,
      Script.ofJson_of_not_isList htrack, Script.ofJson_of_not_isList hcreate]
  have hi : r.store.Has i := by
    rw [hr]
    exact ⟨[i.source, i.table, i.kind.name, i.role].flatMap Key.part, by decide +kernel, by decide +kernel⟩
  have htracked : r.store.isTracked "default" "author" = .ok true := by
    rw [hr]
    decide +kernel
  obtain ⟨σ, tracked, -, ht, -, huntrack⟩ := PermissionCache.removable _ hes hi
  obtain rfl : tracked = true := Except.ok.inj (ht.symm.trans htracked)
  obtain ⟨is, r', hr', -, hleft⟩ := huntrack
  exact ⟨hes, hi, is, r', hr', fun h => ((hleft i).1 h).2 ⟨rfl, rfl⟩⟩

/-- The authors' table gets a permission without being tracked, and leaves the schema: nothing removes the
permission. -/
theorem PermissionCache.not_removable_authors :
    let authors : Schema := (Catalog.ofTables [⟨"author", [⟨"id", .integer⟩], [], []⟩]).schema
    let create : Json := .obj [("args",
      .obj [("permission", .obj [("filter", .obj [("id", .obj [("_eq", .int 1)])])]),
        ("role", .str "user"), ("table", .str "author")]), ("type", .str "create_delete_permission")]
    let es : List Event := [.command create, .setBackend "default" (Catalog.ofTables []).schema]
    let start : Registry PermissionCache := ⟨.empty, .ofBackends (.ofList [("default", authors)])⟩
    let r := es.foldl (Event.run PermissionCache.setBackend) start
    let i : PermissionId := ⟨"default", "author", "user", .delete⟩
    (∀ doc, Event.command doc ∈ es → doc.AllNumbers Number.IsSound) ∧ r.store.Has i ∧
      ¬ ((∃ x r', Operation.drop i r = (.ok x, r') ∧ ¬ r'.store.Has i) ∨
        ∃ is r', Operation.untrack i.source i.table r = (.ok is, r') ∧ ¬ r'.store.Has i) := by
  intro authors create es start r i
  have hcreate : Script.isList create = false := by decide +kernel
  have hr : r = ((Script.single create).run start).2.map
      (PermissionCache.setBackend · "default" (Catalog.ofTables []).schema) := by
    simp only [r, es, List.foldl_cons, List.foldl_nil, Event.run, runCommand, Registry.map,
      Script.ofJson_of_not_isList hcreate]
  have hdrop : (Operation.drop i r).1.isOk = false := by
    rw [hr]
    decide +kernel
  have huntrack : (Operation.untrack i.source i.table r).1.isOk = false := by
    rw [hr]
    decide +kernel
  refine ⟨?_, ?_, ?_⟩
  · intro doc hdoc n hn
    obtain rfl : doc = create := by simpa [es] using hdoc
    obtain rfl : n = .int 1 := List.mem_singleton.1 hn
    exact (by decide : Number.isInteger 1 = true)
  · rw [hr]
    exact ⟨[i.source, i.table, i.kind.name, i.role].flatMap Key.part, by decide +kernel, by decide +kernel⟩
  · rintro (⟨x, r', h, -⟩ | ⟨is, r', h, -⟩)
    · rw [h] at hdrop
      cases hdrop
    · rw [h] at huntrack
      cases huntrack

end TableAccess
