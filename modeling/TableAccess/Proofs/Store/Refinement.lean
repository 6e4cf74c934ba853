import TableAccess.Proofs.Store.Ledger
import TableAccess.Proofs.Store.Writing

/-!
# The store is a ledger

A store *follows* a ledger if the list it holds is that of the ledger, up to the insertion numbers, and
all of it can be read and written. Then everything it shows is read off the ledger, and every
admissible operation leaves it following the ledger.

* `Store.Follows.shows`: **a store that follows a ledger shows it.**
* `Store.Follows.step`, `Store.Follows.event`: what one operation, and one event, keeps.
* `Store.shows_ledger`: **whatever is done to an empty store gives the answers of the ledger and
  leaves a store that shows the ledger.**
-/

namespace TableAccess

/-- The store `st` holds the list `l`, all of which can be read and written, and the ledger `L` is this
list without its numbers. -/
structure Store.Follows (st : Store) (L : Ledger) (l : Contents) : Prop where
  holds : st.Holds l
  readable : ∀ e ∈ l, e.2.Readable
  writable : ∀ e ∈ l, ∀ k, Key.ofId e.1 = .ok k → k.length ≤ Key.maxLength
  entries : L.entries = l.definitions
  tracked : ∀ k, k ∈ st.tracked.toList ↔ ∃ t ∈ L.tracked, Key.ofTable t.1 t.2 = .ok k
  tables : ∀ t ∈ L.tracked, ∃ k, Key.ofTable t.1 t.2 = .ok k
  nextSeq : st.nextSeq = L.inserted + 1

theorem Store.trackedTables_eq {st : Store} {source : String} {start : Key}
    (h : Key.ofSource source = .ok start) : st.trackedTables source =
      .ok ((st.tracked.toList.filter fun k => start.isPrefixOf k).filterMap Key.table?) := by
  rw [Store.trackedTables, h]
  rfl

namespace Store.Follows

variable {st : Store} {L : Ledger} {l : Contents}

theorem empty : Store.empty.Follows .empty [] where
  holds := .empty
  readable _ h := by cases h
  writable _ h := by cases h
  entries := rfl
  tracked k := ⟨(by cases ·), fun ⟨_, h, _⟩ => (by cases h)⟩
  tables _ h := by cases h
  nextSeq := rfl

theorem has (h : st.Follows L l) (i : PermissionId) : L.has i = (l.lookup i).isSome := by
  rw [Ledger.has, h.entries, Contents.lookup_definitions, Option.isSome_map]

theorem contains_key (h : st.Follows L l) {i : PermissionId} {k : Key} (hk : Key.ofId i = .ok k) :
    st.permissions.contains k = L.has i := by
  rw [h.has, SortedMap.contains, h.holds.get?_text hk, Option.isSome_map]

theorem get? (h : st.Follows L l) {i : PermissionId} {k : Key} (hk : Key.ofId i = .ok k) :
    st.get? i = .ok (l.lookup i) :=
  h.holds.get?_eq_ok.2 ⟨⟨k, hk⟩, fun _ hd =>
    h.readable _ ((Contents.lookup_eq_some_iff h.holds.ids).1 hd), rfl⟩

theorem startingWith (h : st.Follows L l) (start : Key) :
    st.startingWith start = .ok (l.filter fun e => Key.starts start e.1) :=
  h.holds.startingWith_eq_ok.2 ⟨fun e he => h.readable e (List.mem_filter.1 he).1, rfl⟩

/-- A scan by what the names are, not their keys. -/
theorem startingWith_of (h : st.Follows L l) {start : Key} {p : PermissionId → Prop} [DecidablePred p]
    (hp : ∀ i k, Key.ofId i = .ok k → (Key.starts start i = true ↔ p i)) :
    st.startingWith start = .ok (l.filter fun e => p e.1) := by
  rw [h.startingWith]
  refine congrArg _ (List.filter_congr fun e he => ?_)
  obtain ⟨k, hk⟩ := h.holds.keys e he
  rw [Bool.eq_iff_iff, hp _ _ hk, decide_eq_true_eq]

theorem map_filter (h : st.Follows L l) (p : PermissionId → Bool) :
    Contents.definitions (l.filter fun e => p e.1) = L.entries.filter fun e => p e.1 := by
  rw [h.entries, Contents.definitions, Contents.definitions, List.filter_map]
  rfl

/-- The tables of a source among the tracked ones. -/
theorem trackedTables (h : st.Follows L l) {source : String} {start : Key}
    (hs : Key.ofSource source = .ok start) :
    ∃ tables, st.trackedTables source = .ok tables ∧ tables.Nodup ∧
      ∀ table, table ∈ tables ↔ (source, table) ∈ L.tracked := by
  -- a tracked key with this start is that of a table of the source
  have hkey : ∀ k ∈ st.tracked.toList.filter fun k => start.isPrefixOf k,
      ∃ table, (source, table) ∈ L.tracked ∧ Key.ofTable source table = .ok k := by
    intro k hk
    obtain ⟨hk, hstart⟩ := List.mem_filter.1 hk
    obtain ⟨⟨source', table⟩, ht, hkt⟩ := (h.tracked k).1 hk
    have hprefix := (Key.isPrefixOf_ofParts hs hkt).1 hstart
    obtain rfl : source = source' := (List.cons_prefix_cons.1 hprefix).1
    exact ⟨table, ht, hkt⟩
  refine ⟨_, Store.trackedTables_eq hs, ?_, fun table => ?_⟩
  -- different keys are those of different tables
  · have hnodup : (st.tracked.toList.filter fun k => start.isPrefixOf k).Nodup :=
      (st.tracked.ordered.filter _).imp ne_of_compare_lt
    refine List.pairwise_filterMap.2 (List.Pairwise.imp_of_mem ?_ hnodup)
    intro k k' hk hk' hne table htable table' htable' heq
    obtain ⟨t, -, ht⟩ := hkey k hk
    obtain ⟨t', -, ht'⟩ := hkey k' hk'
    obtain rfl := Option.some.inj ((Key.table?_ofTable ht).symm.trans htable)
    obtain rfl := Option.some.inj ((Key.table?_ofTable ht').symm.trans htable')
    subst heq
    exact hne (Except.ok.inj (ht.symm.trans ht'))
  · rw [List.mem_filterMap]
    constructor
    · rintro ⟨k, hk, htable⟩
      obtain ⟨t, ht, hkt⟩ := hkey k hk
      exact Option.some.inj ((Key.table?_ofTable hkt).symm.trans htable) ▸ ht
    · intro ht
      obtain ⟨k, hk⟩ := h.tables _ ht
      refine ⟨k, List.mem_filter.2 ⟨(h.tracked k).2 ⟨_, ht, hk⟩, ?_⟩, Key.table?_ofTable hk⟩
      exact (Key.isPrefixOf_ofParts hs hk).2 (List.cons_prefix_cons.2 ⟨rfl, List.nil_prefix⟩)

/-- **A store that follows a ledger shows it.** -/
theorem shows (h : st.Follows L l) : st.Shows L where
  ids := by
    rw [h.entries, Contents.map_fst_definitions]
    exact h.holds.ids
  definitions := h.entries ▸ h.holds.definitions_eq h.readable
  definition? i hi := by
    obtain ⟨k, hk⟩ := hi
    simp only [Store.definition?, h.get? hk, h.entries, Contents.lookup_definitions]
    rfl
  contains i hi := by
    obtain ⟨k, hk⟩ := hi
    exact Transaction.contains_eq_ok.2 ⟨k, hk, h.contains_key hk, rfl⟩
  listAll := by
    simp only [Store.list, pure_bind, h.holds.startingWith_nil h.readable, h.entries]
    rfl
  list source hs := by
    obtain ⟨start, hs⟩ := hs
    have hscan := h.startingWith_of (p := fun i => i.source = source)
      fun i k hk => Key.starts_ofSource hs hk
    simp only [Store.list, hs, ok_bind, hscan]
    exact congrArg Except.ok (h.map_filter fun i => i.source = source)
  tablePermissions source table hst := by
    obtain ⟨start, hs⟩ := hst
    have hscan := h.startingWith_of (p := fun i => i.source = source ∧ i.table = table)
      fun i k hk => Key.starts_ofTable hs hk
    have hfilter := h.map_filter fun i => decide (i.source = source ∧ i.table = table)
    simp only [Store.tablePermissions, hs, ok_bind, hscan, Ledger.ofTable]
    rw [← hfilter, Contents.definitions, List.foldlM_map]
  isTracked source table hst := by
    obtain ⟨k, hk⟩ := hst
    have hmem : st.tracked.contains k = decide ((source, table) ∈ L.tracked) := by
      rw [Bool.eq_iff_iff, SortedSet.contains_iff, h.tracked, decide_eq_true_eq]
      constructor
      · rintro ⟨⟨s, t⟩, ht, hkt⟩
        cases Key.ofParts_injective hk hkt
        exact ht
      · exact fun ht => ⟨_, ht, hk⟩
    simp only [Store.isTracked, hk, ok_bind, hmem]
    rfl
  trackedTables source hs := by
    obtain ⟨start, hs⟩ := hs
    exact h.trackedTables hs
  nextSeq := h.nextSeq

end Store.Follows

/-! ## Operations -/

namespace Store.Follows

variable {st : Store} {L : Ledger} {l : Contents} {i : PermissionId} {k : Key}

theorem insert (h : st.Follows L l) {d : Definition} (ha : (StoreOp.insert i d).Admissible)
    (hn : L.inserted + 1 ≤ Number.maxNat) :
    ∃ st' l', Transaction.insert i d st = .ok ((), st') ∧ st'.Follows (L.insert i d) l' := by
  obtain ⟨⟨k, hk, hlen⟩, ⟨s, doc, hdoc, hd⟩, hdepth⟩ := ha
  refine ⟨_, _, Transaction.insert_eq_ok.2 ⟨k, hk, hlen, rfl⟩,
    h.holds.insert hk (Definition.reader_yields hdoc hd), ?_, ?_, ?_, h.tracked, h.tables,
    congrArg (· + 1) h.nextSeq⟩
  · exact Contents.forall_mem_concat ⟨h.nextSeq ▸ hn, StoredDefinition.depth_toJson _ ▸ hdepth⟩
      (Contents.forall_mem_without h.readable)
  · exact Contents.forall_mem_concat (fun k' hk' => Except.ok.inj (hk.symm.trans hk') ▸ hlen)
      (Contents.forall_mem_without h.writable)
  · rw [Contents.definitions, List.map_append]
    exact congrArg (· ++ [(i, d)]) (h.map_filter (· != i)).symm

theorem remove (h : st.Follows L l) (ha : Key.Fits (Key.ofId i)) :
    ∃ st' l', Transaction.remove i st = .ok (L.has i, st') ∧ st'.Follows (L.remove i) l' := by
  obtain ⟨k, hk, -⟩ := ha
  exact ⟨_, _, Transaction.remove_eq_ok.2 ⟨k, hk, h.contains_key hk, rfl⟩, h.holds.remove hk,
    Contents.forall_mem_without h.readable, Contents.forall_mem_without h.writable,
    (h.map_filter (· != i)).symm, h.tracked, h.tables, h.nextSeq⟩

theorem setComment (h : st.Follows L l) (ha : Key.Fits (Key.ofId i)) (comment : Option String) :
    ∃ st' l', Transaction.setComment i comment st = .ok (L.has i, st') ∧
      st'.Follows (L.setComment i comment) l' := by
  obtain ⟨k, hk, hlen⟩ := ha
  have hget := h.get? hk
  rw [h.has]
  cases hi : l.lookup i with
  | none =>
    rw [hi] at hget
    refine ⟨st, l, Transaction.setComment_eq_ok.2 (.inl ⟨hget, rfl, rfl⟩), h.holds, h.readable,
      h.writable, ?_, h.tracked, h.tables, h.nextSeq⟩
    -- no entry has this identity, so the ledger stays as it is
    have hid : ∀ e ∈ L.entries, (if e.1 = i then (i, { e.2 with comment }) else e) = e := by
      intro e he
      rw [h.entries] at he
      obtain ⟨e', he', rfl⟩ := List.mem_map.1 he
      exact if_neg fun hei => Contents.lookup_eq_none_iff.1 hi (List.mem_map.2 ⟨e', he', hei⟩)
    exact (List.map_congr_left hid).trans ((List.map_id _).trans h.entries)
  | some d =>
    rw [hi] at hget
    have hmem := (Contents.lookup_eq_some_iff h.holds.ids).1 hi
    have hstorable := h.holds.storable _ hmem
    refine ⟨_, l.replace i { d with definition := { d.definition with comment } },
      Transaction.setComment_eq_ok.2 (.inr ⟨d, hget, rfl, Transaction.put_eq_ok.2 ⟨k, hk, hlen, rfl⟩⟩),
      h.holds.replace hk hi rfl hstorable, ?_, ?_, ?_, h.tracked, h.tables, h.nextSeq⟩
    · exact Contents.forall_mem_replace ⟨(h.readable _ hmem).seq, (h.readable _ hmem).depth⟩ h.readable
    · exact Contents.forall_mem_replace (fun k' hk' => h.writable _ hmem k' hk') h.writable
    · simp only [Ledger.setComment, h.entries, Contents.definitions, Contents.replace, List.map_map]
      refine List.map_congr_left fun e he => ?_
      by_cases hei : e.1 = i
      · obtain rfl := h.holds.eq_of_fst_eq he hmem hei
        simp
      · simp [hei]

theorem track (h : st.Follows L l) {source table : String}
    (ha : Key.Fits (Key.ofTable source table)) :
    ∃ st' l', Transaction.track source table st = .ok ((), st') ∧
      st'.Follows (L.track source table) l' := by
  obtain ⟨k, hk, hlen⟩ := ha
  refine ⟨_, l, Transaction.track_eq_ok.2 ⟨k, hk, hlen, rfl⟩, h.holds.of_permissions rfl rfl, h.readable,
    h.writable, h.entries, fun k' => ?_, fun t ht => ?_, h.nextSeq⟩
  · simp only [Ledger.track, SortedSet.mem_insert, h.tracked, Finset.mem_insert, or_and_right, exists_or,
      exists_eq_left, hk, Except.ok.injEq, eq_comm]
  · rcases Finset.mem_insert.1 ht with rfl | ht
    · exact ⟨k, hk⟩
    · exact h.tables t ht

theorem untrack (h : st.Follows L l) {source table : String} (ha : Key.Fits (Key.ofTable source table)) :
    ∃ st' l', Transaction.untrack source table st = .ok ((L.ofTable source table).map (·.1), st') ∧
      st'.Follows (L.untrack source table) l' := by
  obtain ⟨k, hk, -⟩ := ha
  obtain ⟨dropped, st', hu⟩ := h.holds.exists_untrack hk fun e he _ => h.readable e he
  obtain ⟨rfl, hl, ⟨k', hk', ht⟩, hn⟩ := h.holds.untrack hu
  obtain rfl : k = k' := Except.ok.inj (hk.symm.trans hk')
  refine ⟨st', _, ?_, hl, fun e he => h.readable e (List.mem_filter.1 he).1,
    fun e he => h.writable e (List.mem_filter.1 he).1, ?_, fun k' => ?_, fun t ht => ?_, hn.trans h.nextSeq⟩
  · have hmap := h.map_filter fun i => decide (i.source = source ∧ i.table = table)
    rw [hu, Ledger.ofTable, ← hmap, Contents.map_fst_definitions]
  · exact (h.map_filter fun i => decide ¬ (i.source = source ∧ i.table = table)).symm
  · rw [ht, SortedSet.mem_erase, h.tracked]
    simp only [Ledger.untrack, Finset.mem_erase]
    constructor
    · rintro ⟨⟨t, htL, htk⟩, hne⟩
      refine ⟨t, ⟨?_, htL⟩, htk⟩
      rintro rfl
      exact hne (Except.ok.inj (htk.symm.trans hk))
    · rintro ⟨⟨s, t⟩, ⟨hne, htL⟩, htk⟩
      refine ⟨⟨_, htL, htk⟩, ?_⟩
      rintro rfl
      cases Key.ofParts_injective hk htk
      exact hne rfl
  · exact h.tables t (Finset.mem_of_mem_erase ht)

/-- **An admissible operation answers as on the ledger** and changes the store as the ledger. -/
theorem step (h : st.Follows L l) {op : StoreOp} (ha : op.Admissible)
    (hn : op.isInsert = true → L.inserted + 1 ≤ Number.maxNat) :
    ∃ st' l', op.run st = .ok (op.answer L, st') ∧ st'.Follows (op.apply L) l' := by
  cases op with
  | insert i d =>
    obtain ⟨st', l', hrun, h'⟩ := h.insert ha (hn rfl)
    exact ⟨st', l', Transaction.bind_eq_ok.2 ⟨(), st', hrun, rfl⟩, h'⟩
  | remove i =>
    obtain ⟨st', l', hrun, h'⟩ := h.remove ha
    exact ⟨st', l', Transaction.bind_eq_ok.2 ⟨_, st', hrun, rfl⟩, h'⟩
  | setComment i comment =>
    obtain ⟨st', l', hrun, h'⟩ := h.setComment ha comment
    exact ⟨st', l', Transaction.bind_eq_ok.2 ⟨_, st', hrun, rfl⟩, h'⟩
  | track source table =>
    obtain ⟨st', l', hrun, h'⟩ := h.track ha
    exact ⟨st', l', Transaction.bind_eq_ok.2 ⟨(), st', hrun, rfl⟩, h'⟩
  | untrack source table =>
    obtain ⟨st', l', hrun, h'⟩ := h.untrack ha
    exact ⟨st', l', Transaction.bind_eq_ok.2 ⟨_, st', hrun, rfl⟩, h'⟩

end Store.Follows

/-! ## Runs -/

theorem StoreOp.inserted_apply (L : Ledger) (op : StoreOp) :
    (op.apply L).inserted = L.inserted + if op.isInsert then 1 else 0 := by
  cases op <;> rfl

/-- A transaction that fails leaves the store as it was. -/
theorem StoreEvent.run_abort (st : Store) (ops : List StoreOp) (f : Failure) :
    ((StoreEvent.abort ops f).run st).2 = st := by
  have hfail : ∀ r, (do let _ ← StoreOp.runAll ops; Transaction.abort f : Transaction Unit) st ≠ .ok r := by
    rintro ⟨u, st'⟩ hr
    obtain ⟨_, _, -, habort⟩ := Transaction.bind_eq_ok.1 hr
    exact Transaction.abort_ne_ok habort
  simp only [StoreEvent.run]
  rcases ht : st.transact (do let _ ← StoreOp.runAll ops; Transaction.abort f : Transaction Unit) with
    ⟨_ | _, st'⟩
  · exact Transaction.transact_eq_error ht
  · exact absurd (Transaction.transact_eq_ok.1 ht) (hfail _)

namespace Store.Follows

variable {st : Store} {L : Ledger} {l : Contents}

/-- Admissible operations answer as on the ledger, one after another. -/
theorem runAll (h : st.Follows L l) {ops : List StoreOp} (ha : ∀ op ∈ ops, op.Admissible)
    (hn : L.inserted + ops.countP StoreOp.isInsert ≤ Number.maxNat) :
    ∃ st' l', StoreOp.runAll ops st = .ok (StoreOp.answers L ops, st') ∧
      st'.Follows (StoreOp.applyAll L ops) l' ∧
      (StoreOp.applyAll L ops).inserted = L.inserted + ops.countP StoreOp.isInsert := by
  induction ops generalizing st L l with
  | nil => exact ⟨st, l, rfl, h, rfl⟩
  | cons op ops ih =>
    obtain ⟨hop, hops⟩ := List.forall_mem_cons.1 ha
    have hcount := StoreOp.inserted_apply L op
    rw [List.countP_cons] at hn
    obtain ⟨st₁, l₁, hrun, h₁⟩ := h.step hop fun hi => by rw [if_pos hi] at hn; omega
    obtain ⟨st₂, l₂, hruns, h₂, hi⟩ := ih h₁ hops (by omega)
    refine ⟨st₂, l₂, ?_, h₂, ?_⟩
    · exact Transaction.bind_eq_ok.2 ⟨_, st₁, hrun, Transaction.bind_eq_ok.2 ⟨_, st₂, hruns, rfl⟩⟩
    · rw [List.countP_cons]
      exact hi.trans (by omega)

/-- **What is done to a store answers as on the ledger** and changes the store as the ledger. -/
theorem event (h : st.Follows L l) {e : StoreEvent} (ha : e.Admissible) {n : Nat} (hL : L.inserted ≤ n)
    (hn : e.countFrom n < 2 ^ 64 - 1) :
    ∃ l', (e.run st).1 = .ok (e.answers L) ∧ (e.run st).2.Follows (e.apply L) l' ∧
      (e.apply L).inserted ≤ e.countFrom n := by
  have hmax : Number.maxNat = 2 ^ 64 - 1 := rfl
  cases e with
  | commit ops =>
    simp only [StoreEvent.countFrom] at hn
    obtain ⟨st', l', hrun, h', hi⟩ := h.runAll ha (by omega)
    have hcommit := Transaction.transact_eq_ok.2 hrun
    refine ⟨l', ?_, ?_, ?_⟩
    · simp only [StoreEvent.run, hcommit, StoreEvent.answers]
    · simp only [StoreEvent.run, hcommit]
      exact h'
    · simp only [StoreEvent.apply, StoreEvent.countFrom, hi]
      omega
  | abort ops f =>
    simp only [StoreEvent.countFrom] at hn
    obtain ⟨st', l', hrun, -⟩ := h.runAll ha (by omega)
    refine ⟨l, ?_, (StoreEvent.run_abort st ops f).symm ▸ h, Nat.le_trans hL (Nat.le_add_right _ _)⟩
    simp only [StoreEvent.run, hrun, StoreEvent.answers, Except.map]
  | clear => exact ⟨[], rfl, .empty, Nat.zero_le _⟩

/-- Several things are done as on the ledger. -/
theorem events (h : st.Follows L l) {es : List StoreEvent} (ha : ∀ e ∈ es, e.Admissible) {n : Nat}
    (hL : L.inserted ≤ n) (hn : StoreEvent.FewInserts n es) :
    ∃ l', (StoreEvent.runAll st es).1 = (StoreEvent.answersAll L es).map .ok ∧
      (StoreEvent.runAll st es).2.Follows (StoreEvent.applyAll L es) l' := by
  induction es generalizing st L l n with
  | nil => exact ⟨l, rfl, h⟩
  | cons e es ih =>
    obtain ⟨he, hes⟩ := List.forall_mem_cons.1 ha
    obtain ⟨l₁, hanswer, h₁, hL₁⟩ := h.event he hL hn.1
    obtain ⟨l₂, hanswers, h₂⟩ := ih h₁ hes hL₁ hn.2
    refine ⟨l₂, ?_, h₂⟩
    simp only [StoreEvent.runAll, StoreEvent.answersAll, List.map_cons, hanswer, hanswers]

end Store.Follows

/-- **The store is a ledger.** Whatever is done to an empty store, its operations answer as on the
ledger, and the store shows the ledger afterwards. -/
theorem Store.shows_ledger {es : List StoreEvent} (ha : ∀ e ∈ es, e.Admissible)
    (hn : StoreEvent.FewInserts 0 es) :
    (StoreEvent.runAll .empty es).1 = (StoreEvent.answersAll .empty es).map .ok ∧
      (StoreEvent.runAll .empty es).2.Shows (StoreEvent.applyAll .empty es) := by
  obtain ⟨l, hanswers, h⟩ := Follows.empty.events ha (Nat.le_refl _) hn
  exact ⟨hanswers, h.shows⟩

/-- A table is tracked and a definition inserted, untracking the table is given up, and a comment is
set. -/
theorem Store.shows_ledger_authors :
    let i : PermissionId := ⟨"default", "author", "user", .delete⟩
    let d : Definition := ⟨"user", none, .delete ⟨.obj [("id", .obj [("_eq", .int 1)])]⟩⟩
    let es : List StoreEvent := [.commit [.track "default" "author", .insert i d],
      .abort [.untrack "default" "author"] ⟨[], .validation .emptyRole⟩,
      .commit [.setComment i (some "own rows"), .remove ⟨"default", "author", "user", .select⟩]]
    (∀ e ∈ es, e.Admissible) ∧ StoreEvent.FewInserts 0 es ∧
      (StoreEvent.runAll .empty es).1 = (StoreEvent.answersAll .empty es).map .ok ∧
      (StoreEvent.runAll .empty es).2.Shows (StoreEvent.applyAll .empty es) := by
  intro i d es
  have htable : Key.Fits (Key.ofTable "default" "author") := ⟨_, rfl, by decide +kernel⟩
  have hid : Key.Fits (Key.ofId i) := ⟨_, rfl, by decide +kernel⟩
  have hselect : Key.Fits (Key.ofId ⟨"default", "author", "user", .select⟩) := ⟨_, rfl, by decide +kernel⟩
  have hread : d.WasRead := by
    refine ⟨.value, Document.ofJson d.toJson, fun n hn => ?_, rfl⟩
    obtain rfl : n = .int 1 := List.mem_singleton.1 hn
    exact Number.readsBack_int (by decide)
  have ha : ∀ e ∈ es, e.Admissible := by
    simp only [es, List.forall_mem_cons, StoreEvent.Admissible, StoreOp.Admissible]
    exact ⟨⟨htable, ⟨hid, hread, by decide +kernel⟩, List.forall_mem_nil _⟩,
      ⟨htable, List.forall_mem_nil _⟩, ⟨hid, hselect, List.forall_mem_nil _⟩, List.forall_mem_nil _⟩
  have hn : StoreEvent.FewInserts 0 es := by
    simp [es, StoreEvent.FewInserts, StoreEvent.countFrom, List.countP_cons, StoreOp.isInsert]
  exact ⟨ha, hn, Store.shows_ledger ha hn⟩

end TableAccess
