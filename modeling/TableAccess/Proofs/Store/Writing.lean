import TableAccess.Proofs.Store.Contents
import TableAccess.Store.Transaction

/-!
# Writing to a store

Each operation of a transaction succeeds exactly if the keys it needs can be made, and changes the
list that the store holds as its name says.

* `Holds.insert`, `Holds.remove`, `Holds.setComment`, `Holds.untrack`: **what writing does to the list.**
* `insert_eq_ok`, `remove_eq_ok`, `setComment_eq_ok`, `track_eq_ok`: when it succeeds, and what it leaves.
-/

namespace TableAccess

/-- An engine on which every commit succeeds is the reliable one. -/
theorem Engine.eq_reliable [E : Engine] (h : Engine.Commits) : E = Engine.reliable :=
  congrArg Engine.mk (funext h)

namespace Transaction

variable {α β : Type} {st st' : Store} {i : PermissionId} {k : Key}

/-! ## Steps of a transaction -/

theorem bind_eq_ok {t : Transaction α} {f : α → Transaction β} {b : β} :
    (t >>= f) st = .ok (b, st') ↔ ∃ a st₁, t st = .ok (a, st₁) ∧ f a st₁ = .ok (b, st') := by
  show (t st >>= fun r => f r.1 r.2) = _ ↔ _
  rw [TableAccess.bind_eq_ok]
  exact ⟨fun ⟨r, h⟩ => ⟨r.1, r.2, h⟩, fun ⟨a, st₁, h⟩ => ⟨(a, st₁), h⟩⟩

theorem pure_eq_ok {a b : α} : (pure a : Transaction α) st = .ok (b, st') ↔ a = b ∧ st = st' := by
  show (Except.ok (a, st) : Except Failure (α × Store)) = _ ↔ _
  rw [Except.ok.injEq, Prod.mk.injEq]

theorem look_eq_ok {f : Store → Except Failure α} {a : α} :
    look f st = .ok (a, st') ↔ f st = .ok a ∧ st = st' := by
  simp only [look, TableAccess.bind_eq_ok, TableAccess.pure_eq_ok, Prod.mk.injEq]
  constructor
  · rintro ⟨_, h, rfl, hs⟩
    exact ⟨h, hs⟩
  · rintro ⟨h, hs⟩
    exact ⟨a, h, rfl, hs⟩

theorem get_eq_ok {s : Store} : (get : Transaction Store) st = .ok (s, st') ↔ st = s ∧ st = st' :=
  pure_eq_ok

theorem modify_eq_ok {f : Store → Store} {u : Unit} :
    (modify f : Transaction Unit) st = .ok (u, st') ↔ f st = st' :=
  ⟨fun h => (Prod.ext_iff.1 (Except.ok.inj h)).2, fun h => h ▸ rfl⟩

theorem abort_ne_ok {f : Failure} {a : α} : abort f st ≠ .ok (a, st') := nofun

theorem writable_eq_ok {k' : Key} : writable k = .ok k' ↔ k.length ≤ Key.maxLength ∧ k = k' := by
  unfold writable
  split
  next h =>
    constructor
    · intro h
      cases h
    · exact fun hk => absurd hk.1 (Nat.not_le_of_lt h)
  next h => simp [Nat.le_of_not_lt h]

/-- A key that is written under is the one that was made. -/
theorem exists_writable {p : Key → Prop} :
    (∃ k', writable k = .ok k' ∧ p k') ↔ k.length ≤ Key.maxLength ∧ p k := by
  simp only [writable_eq_ok, and_assoc, exists_and_left, exists_eq_left']

/-- A transaction that is run on a store by a reliable engine is kept exactly if it succeeds. -/
theorem transact_eq_ok {t : Transaction α} {a : α} :
    st.transact t = (.ok a, st') ↔ t st = .ok (a, st') := by
  unfold Store.transact
  rcases t st with f | ⟨b, pending⟩
  · exact ⟨fun h => (by cases h), fun h => (by cases h)⟩
  · exact ⟨fun h => (by cases h; rfl), fun h => (by cases h; rfl)⟩

/-- A transaction that is not kept leaves the store as it was. -/
theorem transact_eq_error {t : Transaction α} {f : Failure} (h : st.transact t = (.error f, st')) :
    st' = st := by
  unfold Store.transact at h
  rcases ht : t st with e | ⟨b, pending⟩
  · simp only [ht] at h
    cases h
    rfl
  · simp only [ht] at h
    cases h

/-! ## Operations -/

theorem contains_eq_ok {b : Bool} : contains i st = .ok (b, st') ↔
    ∃ k, Key.ofId i = .ok k ∧ st.permissions.contains k = b ∧ st = st' := by
  simp only [contains, look_eq_ok, TableAccess.bind_eq_ok, TableAccess.pure_eq_ok]
  constructor
  · rintro ⟨⟨k, hk, hb⟩, hs⟩
    exact ⟨k, hk, hb, hs⟩
  · rintro ⟨k, hk, hb, hs⟩
    exact ⟨⟨k, hk, hb⟩, hs⟩

theorem put_eq_ok {d : StoredDefinition} {u : Unit} : put i d st = .ok (u, st') ↔
    ∃ k, Key.ofId i = .ok k ∧ k.length ≤ Key.maxLength ∧
      { st with permissions := st.permissions.insert k d.toJson.text } = st' := by
  simp only [put, TableAccess.bind_eq_ok, TableAccess.pure_eq_ok, exists_writable, Prod.mk.injEq, true_and]

theorem insert_eq_ok {d : Definition} {u : Unit} : insert i d st = .ok (u, st') ↔
    ∃ k, Key.ofId i = .ok k ∧ k.length ≤ Key.maxLength ∧
      (⟨st.permissions.insert k (StoredDefinition.mk st.nextSeq d).toJson.text, st.tracked,
        st.nextSeq + 1⟩ : Store) = st' := by
  simp only [insert, bind_eq_ok, get_eq_ok, modify_eq_ok, put_eq_ok]
  constructor
  · rintro ⟨_, _, ⟨rfl, rfl⟩, _, _, ⟨k, hk, hlen, rfl⟩, hs⟩
    exact ⟨k, hk, hlen, hs⟩
  · rintro ⟨k, hk, hlen, hs⟩
    exact ⟨st, st, ⟨rfl, rfl⟩, (), _, ⟨k, hk, hlen, rfl⟩, hs⟩

theorem remove_eq_ok {b : Bool} : remove i st = .ok (b, st') ↔
    ∃ k, Key.ofId i = .ok k ∧ st.permissions.contains k = b ∧
      { st with permissions := st.permissions.erase k } = st' := by
  simp only [remove, TableAccess.bind_eq_ok, TableAccess.pure_eq_ok, Prod.mk.injEq]

theorem setComment_eq_ok {comment : Option String} {b : Bool} :
    setComment i comment st = .ok (b, st') ↔
    (st.get? i = .ok none ∧ b = false ∧ st = st') ∨
    ∃ d, st.get? i = .ok (some d) ∧ b = true ∧
      put i { d with definition := { d.definition with comment } } st = .ok ((), st') := by
  simp only [setComment, bind_eq_ok, get?, look_eq_ok]
  constructor
  · rintro ⟨o, _, ⟨hget, rfl⟩, h⟩
    cases o with
    | none =>
      obtain ⟨rfl, hs⟩ := pure_eq_ok.1 h
      exact .inl ⟨hget, rfl, hs⟩
    | some d =>
      obtain ⟨_, st₁, hput, h⟩ := bind_eq_ok.1 h
      obtain ⟨rfl, rfl⟩ := pure_eq_ok.1 h
      exact .inr ⟨d, hget, rfl, hput⟩
  · rintro (⟨hget, rfl, hs⟩ | ⟨d, hget, rfl, hput⟩)
    · exact ⟨none, st, ⟨hget, rfl⟩, pure_eq_ok.2 ⟨rfl, hs⟩⟩
    · exact ⟨some d, st, ⟨hget, rfl⟩, bind_eq_ok.2 ⟨(), st', hput, pure_eq_ok.2 ⟨rfl, rfl⟩⟩⟩

theorem track_eq_ok {source table : String} {u : Unit} : track source table st = .ok (u, st') ↔
    ∃ k, Key.ofTable source table = .ok k ∧ k.length ≤ Key.maxLength ∧
      { st with tracked := st.tracked.insert k } = st' := by
  simp only [track, TableAccess.bind_eq_ok, TableAccess.pure_eq_ok, exists_writable, Prod.mk.injEq, true_and]

theorem untrack_eq_ok {source table : String} {dropped : List PermissionId} :
    untrack source table st = .ok (dropped, st') ↔
      ∃ k found st₁, Key.ofTable source table = .ok k ∧ st.startingWith k = .ok found ∧
        found.map (·.1) = dropped ∧ removeAll dropped st = .ok ((), st₁) ∧
        { st₁ with tracked := st₁.tracked.erase k } = st' := by
  simp only [untrack, bind_eq_ok, look_eq_ok, modify_eq_ok, pure_eq_ok, TableAccess.bind_eq_ok,
    TableAccess.pure_eq_ok]
  constructor
  · rintro ⟨k, _, ⟨hk, rfl⟩, _, _, ⟨⟨found, hfound, rfl⟩, rfl⟩, _, st₁, hremove, _, _, rfl, rfl, rfl⟩
    exact ⟨k, found, st₁, hk, hfound, rfl, hremove, rfl⟩
  · rintro ⟨k, found, st₁, hk, hfound, rfl, hremove, rfl⟩
    exact ⟨k, st, ⟨hk, rfl⟩, _, st, ⟨⟨found, hfound, rfl⟩, rfl⟩, (), st₁, hremove, (), _, rfl, rfl, rfl⟩

end Transaction

/-! ## What writing does to the list -/

namespace Contents

variable {l : Contents} {i j : PermissionId} {d : StoredDefinition}

theorem mem_replace {e : PermissionId × StoredDefinition} :
    e ∈ l.replace i d ↔ (i ∈ l.map (·.1) ∧ e = (i, d)) ∨ e ∈ l.without i := by
  rw [replace, List.mem_map, mem_without]
  constructor
  · rintro ⟨e', he', rfl⟩
    by_cases hi : e'.1 = i
    · exact .inl ⟨List.mem_map.2 ⟨e', he', hi⟩, if_pos hi⟩
    · rw [if_neg hi]
      exact .inr ⟨he', hi⟩
  · rintro (⟨hi, rfl⟩ | ⟨he, hi⟩)
    · obtain ⟨e', he', hi⟩ := List.mem_map.1 hi
      exact ⟨e', he', if_pos hi⟩
    · exact ⟨e, he, if_neg hi⟩

theorem forall_mem_replace {P : PermissionId × StoredDefinition → Prop} (hi : P (i, d))
    (h : ∀ e ∈ l, P e) : ∀ e ∈ l.replace i d, P e := by
  intro e he
  rcases mem_replace.1 he with ⟨-, rfl⟩ | he
  · exact hi
  · exact h e (mem_without.1 he).1

theorem forall_mem_without {P : PermissionId × StoredDefinition → Prop} (h : ∀ e ∈ l, P e) :
    ∀ e ∈ l.without i, P e :=
  fun e he => h e (mem_without.1 he).1

theorem forall_mem_concat {P : PermissionId × StoredDefinition → Prop} (hi : P (i, d))
    (h : ∀ e ∈ l, P e) : ∀ e ∈ l ++ [(i, d)], P e := by
  rw [List.forall_mem_append, List.forall_mem_singleton]
  exact ⟨h, hi⟩

theorem map_seq_replace (h : ∀ e ∈ l, e.1 = i → e.2.seq = d.seq) :
    (l.replace i d).map (·.2.seq) = l.map (·.2.seq) := by
  rw [replace, List.map_map]
  refine List.map_congr_left fun e he => ?_
  by_cases hi : e.1 = i
  · simp [hi, h e he hi]
  · simp [hi]

end Contents

namespace Store.Holds

variable {st : Store} {l : Contents} {i : PermissionId} {k : Key} {d : StoredDefinition}

/-- The bindings of the list without a permission are the others. -/
theorem exists_mem_without (hk : Key.ofId i = .ok k) {k' : Key} {text : String} :
    (∃ e ∈ l.without i, Key.ofId e.1 = .ok k' ∧ e.2.toJson.text = text) ↔
      k' ≠ k ∧ ∃ e ∈ l, Key.ofId e.1 = .ok k' ∧ e.2.toJson.text = text := by
  constructor
  · rintro ⟨e, he, hek, htext⟩
    obtain ⟨he, hei⟩ := Contents.mem_without.1 he
    refine ⟨?_, e, he, hek, htext⟩
    rintro rfl
    exact hei (Key.ofId_injective hek hk)
  · rintro ⟨hne, e, he, hek, htext⟩
    refine ⟨e, Contents.mem_without.2 ⟨he, ?_⟩, hek, htext⟩
    rintro rfl
    exact hne (Except.ok.inj (hek.symm.trans hk))

/-- Another definition under the key of a permission. -/
theorem get?_insert (h : st.Holds l) (hk : Key.ofId i = .ok k) (d : StoredDefinition) {k' : Key}
    {text : String} : (st.permissions.insert k d.toJson.text).get? k' = some text ↔
      (k' = k ∧ d.toJson.text = text) ∨
        ∃ e ∈ l.without i, Key.ofId e.1 = .ok k' ∧ e.2.toJson.text = text := by
  rw [SortedMap.get?_insert, exists_mem_without hk]
  by_cases hkk : k' = k
  · simp [hkk, Std.ReflCmp.compare_self]
  · have hne : compare k' k ≠ .eq := fun hc => hkk (Std.LawfulEqCmp.eq_of_compare hc)
    simp only [if_neg hne, h.bindings, hkk, false_and, false_or, ne_eq, not_false_eq_true, true_and]

/-- **A definition that is inserted stands last**, and nowhere else. -/
theorem insert (h : st.Holds l) (hk : Key.ofId i = .ok k) {d : Definition} (hd : d.clause.Storable) :
    Store.Holds ⟨st.permissions.insert k (StoredDefinition.mk st.nextSeq d).toJson.text, st.tracked,
      st.nextSeq + 1⟩ (l.without i ++ [(i, ⟨st.nextSeq, d⟩)]) where
  ids := by
    rw [List.map_append, List.nodup_append]
    refine ⟨h.ids.sublist ((Contents.without_sublist l i).map _), List.nodup_singleton _, ?_⟩
    rintro j hj j' hj' rfl
    obtain ⟨e, he, rfl⟩ := List.mem_map.1 hj
    exact (Contents.mem_without.1 he).2 (List.mem_singleton.1 hj')
  increasing := by
    rw [List.pairwise_append]
    refine ⟨h.increasing.sublist (Contents.without_sublist l i), List.pairwise_singleton _ _, ?_⟩
    intro e he e' he'
    rw [List.mem_singleton.1 he']
    exact h.used e (Contents.mem_without.1 he).1
  used := Contents.forall_mem_concat (Nat.lt_succ_self _)
    (Contents.forall_mem_without fun e he => Nat.lt_succ_of_lt (h.used e he))
  storable := Contents.forall_mem_concat hd (Contents.forall_mem_without h.storable)
  bindings k' text := by
    rw [h.get?_insert hk]
    simp only [List.mem_append, List.mem_singleton, or_and_right, exists_or, exists_eq_left, hk,
      Except.ok.injEq]
    rw [or_comm, eq_comm (a := k)]
  keys := Contents.forall_mem_concat ⟨k, hk⟩ (Contents.forall_mem_without h.keys)

/-- **A definition that is removed is gone**, and no other. -/
theorem remove (h : st.Holds l) (hk : Key.ofId i = .ok k) :
    Store.Holds { st with permissions := st.permissions.erase k } (l.without i) where
  ids := h.ids.sublist ((Contents.without_sublist l i).map _)
  increasing := h.increasing.sublist (Contents.without_sublist l i)
  used := Contents.forall_mem_without h.used
  storable := Contents.forall_mem_without h.storable
  bindings k' text := by
    show (st.permissions.erase k).get? k' = some text ↔ _
    rw [SortedMap.get?_erase, exists_mem_without hk]
    by_cases hkk : k' = k
    · simp [hkk, Std.ReflCmp.compare_self]
    · have hne : compare k' k ≠ .eq := fun hc => hkk (Std.LawfulEqCmp.eq_of_compare hc)
      simp only [if_neg hne, h.bindings, hkk, ne_eq, not_false_eq_true, true_and]
  keys := Contents.forall_mem_without h.keys

/-- **A definition that is written again stays in its place.** -/
theorem replace (h : st.Holds l) (hk : Key.ofId i = .ok k) (hi : l.lookup i = some d)
    {d' : StoredDefinition} (hseq : d'.seq = d.seq) (hd : d'.definition.clause.Storable) :
    Store.Holds { st with permissions := st.permissions.insert k d'.toJson.text } (l.replace i d') := by
  have hmem : (i, d) ∈ l := (Contents.lookup_eq_some_iff h.ids).1 hi
  have hid : i ∈ l.map (·.1) := List.mem_map_of_mem (f := (·.1)) hmem
  have hused : d'.seq < st.nextSeq := hseq ▸ h.used _ hmem
  -- neither the identities nor the numbers change, so the order does not
  have hseqs : (l.replace i d').map (·.2.seq) = l.map (·.2.seq) :=
    Contents.map_seq_replace fun e he hei => by rw [h.eq_of_fst_eq he hmem hei, hseq]
  have hinc : (l.map (·.2.seq)).Pairwise (· < ·) := List.pairwise_map.2 h.increasing
  refine ⟨Contents.map_fst_replace l i d' ▸ h.ids, List.pairwise_map.1 (hseqs ▸ hinc),
    Contents.forall_mem_replace hused h.used, Contents.forall_mem_replace hd h.storable,
    fun k' text => ?_, Contents.forall_mem_replace ⟨k, hk⟩ h.keys⟩
  rw [h.get?_insert hk]
  simp only [Contents.mem_replace, hid, true_and, or_and_right, exists_or, exists_eq_left, hk,
    Except.ok.injEq]
  rw [eq_comm (a := k)]

/-- The list does not depend on the tracked tables. -/
theorem of_permissions (h : st.Holds l) {st' : Store} (hp : st'.permissions = st.permissions)
    (hn : st'.nextSeq = st.nextSeq) : st'.Holds l :=
  ⟨h.ids, h.increasing, hn ▸ h.used, h.storable, hp ▸ h.bindings, h.keys⟩

/-- Removing several definitions of the list. -/
theorem removeAll (h : st.Holds l) {is : List PermissionId} (his : ∀ i ∈ is, ∃ k, Key.ofId i = .ok k) :
    ∃ st', Transaction.removeAll is st = .ok ((), st') ∧
      st'.Holds (l.filter fun e => e.1 ∉ is) ∧ st'.tracked = st.tracked ∧ st'.nextSeq = st.nextSeq := by
  induction is generalizing st l with
  | nil =>
    have hl : (l.filter fun e => e.1 ∉ ([] : List PermissionId)) = l :=
      List.filter_eq_self.2 fun _ _ => by simp
    exact ⟨st, rfl, hl.symm ▸ h, rfl, rfl⟩
  | cons i is ih =>
    obtain ⟨⟨k, hk⟩, his⟩ := List.forall_mem_cons.1 his
    obtain ⟨st', hst', hl', ht, hn⟩ := ih (h.remove hk) his
    refine ⟨st', ?_, ?_, ht, hn⟩
    · exact Transaction.bind_eq_ok.2 ⟨_, _, Transaction.remove_eq_ok.2 ⟨k, hk, rfl, rfl⟩, hst'⟩
    · rw [Contents.without, List.filter_filter] at hl'
      have hfilter : (l.filter fun e => decide (e.1 ∉ is) && e.1 != i) =
          l.filter fun e => e.1 ∉ i :: is :=
        List.filter_congr fun e _ => by by_cases hi : e.1 = i <;> simp [hi]
      exact hfilter ▸ hl'

theorem keys_of_sublist (h : st.Holds l) {l' : Contents} (hs : l'.Sublist l) :
    ∀ i ∈ l'.map (·.1), ∃ k, Key.ofId i = .ok k := by
  intro i hi
  obtain ⟨e, he, rfl⟩ := List.mem_map.1 hi
  exact h.keys e (hs.subset he)

/-- The definitions of a table. -/
theorem startingWith_ofTable (h : st.Holds l) {source table : String}
    (hk : Key.ofTable source table = .ok k) {r : Contents} :
    st.startingWith k = .ok r ↔
      (∀ e ∈ l, e.1.source = source ∧ e.1.table = table → e.2.Readable) ∧
        r = l.filter fun e => e.1.source = source ∧ e.1.table = table := by
  have hfilter : (l.filter fun e => Key.starts k e.1) =
      l.filter fun e => e.1.source = source ∧ e.1.table = table := by
    refine List.filter_congr fun e he => ?_
    obtain ⟨k', hk'⟩ := h.keys e he
    rw [Bool.eq_iff_iff, Key.starts_ofTable hk hk', decide_eq_true_eq]
  rw [h.startingWith_eq_ok, hfilter]
  simp only [List.mem_filter, decide_eq_true_eq, and_imp]

/-- **Untracking a table removes its definitions**, which are given in order of insertion. -/
theorem untrack (h : st.Holds l) {source table : String} {st' : Store} {dropped : List PermissionId}
    (hu : Transaction.untrack source table st = .ok (dropped, st')) :
    dropped = (l.filter fun e => e.1.source = source ∧ e.1.table = table).map (·.1) ∧
      st'.Holds (l.filter fun e => ¬ (e.1.source = source ∧ e.1.table = table)) ∧
      (∃ k, Key.ofTable source table = .ok k ∧ st'.tracked = st.tracked.erase k) ∧
      st'.nextSeq = st.nextSeq := by
  obtain ⟨k, found, st₁, hk, hfound, hdropped, hremove, rfl⟩ := Transaction.untrack_eq_ok.1 hu
  obtain ⟨-, rfl⟩ := (h.startingWith_ofTable hk).1 hfound
  obtain ⟨st₂, hremove', hl, ht, hn⟩ := h.removeAll (hdropped ▸ h.keys_of_sublist List.filter_sublist)
  obtain rfl : st₂ = st₁ := (Prod.ext_iff.1 (Except.ok.inj (hremove'.symm.trans hremove))).2
  refine ⟨hdropped.symm, ?_, ⟨k, hk, congrArg (·.erase k) ht⟩, hn⟩
  -- an entry of the list is dropped exactly if it is of the table
  have hfilter : (l.filter fun e => e.1 ∉ dropped) =
      l.filter fun e => ¬ (e.1.source = source ∧ e.1.table = table) := by
    refine List.filter_congr fun e he => decide_eq_decide.2 (not_congr ?_)
    rw [← hdropped, List.mem_map]
    constructor
    · rintro ⟨e', he', heq⟩
      rw [← heq]
      exact of_decide_eq_true (List.mem_filter.1 he').2
    · exact fun hst => ⟨e, List.mem_filter.2 ⟨he, decide_eq_true hst⟩, rfl⟩
  exact (hfilter ▸ hl).of_permissions rfl rfl

/-- Untracking a table succeeds if its definitions can be read. -/
theorem exists_untrack (h : st.Holds l) {source table : String} (hk : Key.ofTable source table = .ok k)
    (hr : ∀ e ∈ l, e.1.source = source ∧ e.1.table = table → e.2.Readable) :
    ∃ dropped st', Transaction.untrack source table st = .ok (dropped, st') := by
  have hfound := (h.startingWith_ofTable hk).2 ⟨hr, rfl⟩
  obtain ⟨st₁, hremove, -⟩ := h.removeAll (h.keys_of_sublist List.filter_sublist)
  exact ⟨_, _, Transaction.untrack_eq_ok.2 ⟨k, _, st₁, hk, hfound, rfl, hremove, rfl⟩⟩

end Store.Holds

end TableAccess
