import TableAccess.Proofs.Json.Float
import TableAccess.Proofs.Permission.Stored
import TableAccess.Proofs.Store.Table
import TableAccess.Proofs.Store.Writing

/-!
# Stores that can be read

A number need not come back from its text as it was. What a store shows is then not what was written, but
what the texts are read as, and a store can be read if each of its texts was written for a definition whose
numbers stand for something and which is not nested too deeply.

* `Inscribed`: a stored definition that can be written and read under its identity.
* `Store.Legible`: **all that the store holds can be read.**
* `Legible.inscribed`: what is read can be written again.
* `Legible.exists_ordered_contents`: **scanning a legible store gives what looking its permissions up gives.**
* `Legible.write`: what writing keeps.
-/

namespace TableAccess

/-- A stored definition that stands where it belongs and can be read again there, up to its numbers. -/
structure Inscribed (e : PermissionId × StoredDefinition) : Prop extends Filed e where
  clause : e.2.definition.clause.Free Number.IsSound
  readable : e.2.Readable

/-- **All that the store holds can be read**: each binding is that of an inscribed definition. -/
def Store.Legible (st : Store) : Prop :=
  ∀ b ∈ st.permissions.toList, ∃ e, Inscribed e ∧ Key.ofId e.1 = .ok b.1 ∧ e.2.toJson.text = b.2

/-- **A definition comes back from its text with the numbers that are read there**, exactly if the text can
be read. -/
theorem StoredDefinition.decode_text_eq_ok_of_isSound {d : StoredDefinition}
    (h : d.definition.clause.Free Number.IsSound) {d' : StoredDefinition} :
    Store.decode d.toJson.text = .ok d' ↔ d.Readable ∧ d' = d.mapFloats Binary64.reread :=
  decode_text_eq_ok_of_readAs (fun _ h => h) (fun _ => Number.readsAs_reread) h

namespace Inscribed

variable {i : PermissionId} {d : StoredDefinition}

theorem decode (h : Inscribed (i, d)) :
    Store.decode d.toJson.text = .ok (d.mapFloats Binary64.reread) :=
  (StoredDefinition.decode_text_eq_ok_of_isSound h.clause).2 ⟨h.readable, rfl⟩

/-- **What is read of an inscribed definition can be inscribed again.** -/
theorem reread (h : Inscribed (i, d)) : Inscribed (i, d.mapFloats Binary64.reread) where
  role := h.role
  kind := (Clause.kind_mapFloats _).trans h.kind
  clause := h.clause.mapFloats fun _ => Number.isSound_reread
  readable := StoredDefinition.readable_mapFloats.2 h.readable

/-- Its comment does not matter. -/
theorem setComment (h : Inscribed (i, d)) (comment : Option String) :
    Inscribed (i, { d with definition := { d.definition with comment } }) where
  role := h.role
  kind := h.kind
  clause := h.clause
  readable := ⟨h.readable.seq, h.readable.depth⟩

end Inscribed

namespace Store

variable {st st' : Store} {i j : PermissionId} {k : Key} {d : StoredDefinition}

/-- What is found under a permission is what the text under its key is read as. -/
theorem get?_eq_some_iff : st.get? i = .ok (some d) ↔
    ∃ k text, Key.ofId i = .ok k ∧ st.permissions.get? k = some text ∧ decode text = .ok d := by
  simp only [get?, bind_eq_ok]
  refine exists_congr fun k => ?_
  cases st.permissions.get? k with
  | none =>
    constructor
    · rintro ⟨-, h⟩
      cases h
    · rintro ⟨_, -, h, -⟩
      cases h
  | some text =>
    simp only [bind_eq_ok, pure_eq_ok, Option.some.injEq, exists_eq_right]
    constructor
    · rintro ⟨hk, hd⟩
      exact ⟨text, hk, rfl, hd⟩
    · rintro ⟨_, hk, rfl, hd⟩
      exact ⟨hk, hd⟩

/-- Writing under a permission changes what is found there, and nothing else. -/
theorem get?_of_write {text : String} (hk : Key.ofId i = .ok k)
    (hp : st'.permissions = st.permissions.insert k text) (j : PermissionId) :
    st'.get? j = if j = i then (decode text).map some else st.get? j := by
  by_cases hj : j = i
  · subst hj
    simp only [get?, hk, ok_bind, hp, SortedMap.get?_insert, Std.ReflCmp.compare_self, if_true]
    cases decode text <;> rfl
  · rw [if_neg hj, get?, get?, hp]
    cases hk' : Key.ofId j with
    | error f => rfl
    | ok k' =>
      have hne : compare k' k ≠ .eq := fun hc =>
        hj (Key.ofId_injective hk' (Std.LawfulEqCmp.eq_of_compare hc ▸ hk))
      simp only [ok_bind, SortedMap.get?_insert, if_neg hne]

namespace Legible

theorem empty : Store.empty.Legible := fun _ hb => by cases hb

theorem of_subset (h : st.Legible) (hs : st'.permissions.toList ⊆ st.permissions.toList) : st'.Legible :=
  fun b hb => h b (hs hb)

/-- **Writing an inscribed definition under its identity** keeps a store legible. -/
theorem write (h : st.Legible) (hd : Inscribed (i, d)) (hk : Key.ofId i = .ok k)
    (hp : st'.permissions = st.permissions.insert k d.toJson.text) : st'.Legible := by
  intro b hb
  rw [hp] at hb
  rcases SortedMap.mem_put hb with rfl | hb
  · exact ⟨_, hd, hk, rfl⟩
  · exact h b hb

/-- **What is read can be written again.** -/
theorem inscribed (h : st.Legible) (hd : st.get? i = .ok (some d)) : Inscribed (i, d) := by
  obtain ⟨k, text, hk, htext, hdecode⟩ := get?_eq_some_iff.1 hd
  obtain ⟨⟨j, d₀⟩, hd₀, hj, rfl⟩ := h _ (SortedMap.mem_iff_get?.2 htext)
  obtain rfl := Key.ofId_injective hj hk
  obtain rfl := Except.ok.inj (hd₀.decode.symm.trans hdecode)
  exact hd₀.reread

/-- What a binding of the store says is found under the permission that it is of. -/
theorem entry_eq_ok (h : st.Legible) {b : Key × String} (hb : b ∈ st.permissions.toList)
    {e : PermissionId × StoredDefinition} :
    entry b = .ok e ↔ Key.ofId e.1 = .ok b.1 ∧ st.get? e.1 = .ok (some e.2) := by
  have hget := SortedMap.mem_iff_get?.1 hb
  obtain ⟨e₀, -, hk, -⟩ := h b hb
  simp only [entry, Key.id?_ofId hk, bind_eq_ok, pure_eq_ok, get?_eq_some_iff]
  constructor
  · rintro ⟨d, hd, rfl⟩
    exact ⟨hk, b.1, b.2, hk, hget, hd⟩
  · rintro ⟨hk', k, text, hk'', htext, hd⟩
    obtain rfl := Except.ok.inj (hk'.symm.trans hk'')
    obtain rfl := Option.some.inj (hget.symm.trans htext)
    exact ⟨e.2, hd, Prod.ext (Key.ofId_injective hk hk') rfl⟩

/-- Every binding says something. -/
theorem exists_entry (h : st.Legible) {b : Key × String} (hb : b ∈ st.permissions.toList) :
    ∃ e, entry b = .ok e := by
  obtain ⟨⟨i, d⟩, hd, hk, htext⟩ := h b hb
  refine ⟨(i, d.mapFloats Binary64.reread), (h.entry_eq_ok hb).2 ⟨hk, ?_⟩⟩
  exact get?_eq_some_iff.2 ⟨b.1, b.2, hk, SortedMap.mem_iff_get?.1 hb, htext ▸ hd.decode⟩

/-- Different bindings are of different permissions. -/
theorem nodup_of_scan (h : st.Legible) {found : Contents}
    (hf : st.permissions.toList.mapM entry = .ok found) : (found.map (·.1)).Nodup := by
  have hkeys : found.map (fun e => Key.ofId e.1) = st.permissions.toList.map fun b => .ok b.1 := by
    refine List.forall₂_eq_eq_eq ▸ ?_
    rw [List.forall₂_map_left_iff, List.forall₂_map_right_iff]
    exact (forall₂_of_mem (mapM_eq_ok.1 hf) fun b hb e _ he => ((h.entry_eq_ok hb).1 he).1).flip
  have hbindings : (st.permissions.toList.map fun b => (.ok b.1 : Except Failure Key)).Nodup :=
    List.pairwise_map.2 (st.permissions.ordered.imp fun hlt heq =>
      ne_of_compare_lt hlt (Except.ok.inj heq))
  rw [← hkeys] at hbindings
  refine List.Nodup.of_map (Key.ofId ·) ?_
  rwa [List.map_map]

/-- **Scanning a legible store gives what looking its permissions up gives**, in the order of the numbers. -/
theorem exists_ordered_contents (h : st.Legible) : ∃ l : Contents, st.definitions = .ok l.definitions ∧
    (l.map (·.1)).Nodup ∧ (l.Pairwise fun a b => a.2.seq ≤ b.2.seq) ∧
    ∀ i d, l.lookup i = some d ↔ st.get? i = .ok (some d) := by
  have hall : (st.permissions.toList.filter fun b => ([] : Key).isPrefixOf b.1) = st.permissions.toList :=
    List.filter_eq_self.2 fun b _ => List.isPrefixOf_nil_left
  obtain ⟨found, hf⟩ := exists_mapM_eq_ok fun b hb => h.exists_entry hb
  have hperm := List.mergeSort_perm found fun a b => decide (a.2.seq ≤ b.2.seq)
  have hids := (hperm.map (·.1)).nodup_iff.2 (h.nodup_of_scan hf)
  have hle : (found.mergeSort fun a b => a.2.seq ≤ b.2.seq).Pairwise
      fun a b => decide (a.2.seq ≤ b.2.seq) = true :=
    List.pairwise_mergeSort (by simp; omega) (by simp; omega) found
  refine ⟨found.mergeSort fun a b => a.2.seq ≤ b.2.seq, ?_, hids, by simpa using hle, fun i d => ?_⟩
  · simp only [Store.definitions, startingWith, hall, hf, ok_bind, pure_bind]
    rfl
  rw [Contents.lookup_eq_some_iff hids, hperm.mem_iff]
  constructor
  · intro he
    obtain ⟨b, hb, hbe⟩ := mem_of_mapM hf he
    exact ((h.entry_eq_ok hb).1 hbe).2
  · intro hd
    obtain ⟨k, text, hk, htext, -⟩ := get?_eq_some_iff.1 hd
    have hb := SortedMap.mem_iff_get?.2 htext
    obtain ⟨e, he, hbe⟩ := ok_of_mem_mapM hf hb
    obtain rfl : (i, d) = e := Except.ok.inj (((h.entry_eq_ok hb).2 ⟨hk, hd⟩).symm.trans hbe)
    exact he

theorem exists_contents (h : st.Legible) : ∃ l : Contents, st.definitions = .ok l.definitions ∧
    (l.map (·.1)).Nodup ∧ ∀ i d, l.lookup i = some d ↔ st.get? i = .ok (some d) := by
  obtain ⟨l, hl, hids, -, hlookup⟩ := h.exists_ordered_contents
  exact ⟨l, hl, hids, hlookup⟩

/-- **The definitions of a legible store are what is found under its permissions.** -/
theorem mem_definitions (h : st.Legible) {ds : List (PermissionId × Definition)}
    (hds : st.definitions = .ok ds) {d : Definition} :
    (i, d) ∈ ds ↔ ∃ seq, st.get? i = .ok (some ⟨seq, d⟩) := by
  obtain ⟨l, hl, hids, hlookup⟩ := h.exists_contents
  obtain rfl := Except.ok.inj (hl.symm.trans hds)
  simp only [← hlookup, Contents.lookup_eq_some_iff hids, Contents.definitions, List.mem_map]
  constructor
  · rintro ⟨⟨j, seq, d'⟩, he, heq⟩
    obtain ⟨rfl, rfl⟩ := Prod.mk.inj heq
    exact ⟨seq, he⟩
  · rintro ⟨seq, he⟩
    exact ⟨_, he, rfl⟩

end Legible

end Store

end TableAccess
