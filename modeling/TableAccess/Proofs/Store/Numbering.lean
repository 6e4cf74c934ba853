import TableAccess.Proofs.Store.Legible

/-!
# The order of insertion

Definitions are listed by their numbers. In a store where no two permissions have the same number, and all
numbers are used up, a definition that is written with the next number stands last, and the others stand as
they did.

* `Store.Numbered`: the notion. `Numbered.write`, `Numbered.of_subset`: what keeps it.
* `Numbered.definitions_concat`: **what is inserted stands last.**
-/

namespace TableAccess

/-- Lists of the same entries are the same if both are in order and no number comes twice. -/
theorem Contents.eq_of_ordered {l l' : Contents} (hids : (l.map (·.1)).Nodup) (hids' : (l'.map (·.1)).Nodup)
    (hle : l.Pairwise fun a b => a.2.seq ≤ b.2.seq) (hle' : l'.Pairwise fun a b => a.2.seq ≤ b.2.seq)
    (hmem : ∀ e, e ∈ l ↔ e ∈ l')
    (hdistinct : ∀ a ∈ l, ∀ b ∈ l, a.2.seq = b.2.seq → a.1 = b.1) : l = l' := by
  have hperm := (List.perm_ext_iff_of_nodup hids.of_map hids'.of_map).2 hmem
  refine List.Perm.eq_of_pairwise (fun a b ha hb hab hba => ?_) hle hle' hperm
  have hb := (hmem b).2 hb
  exact List.inj_on_of_nodup_map hids ha hb (hdistinct a ha b hb (Nat.le_antisymm hab hba))

/-- **A store that can be read, whose numbers are used up and tell its permissions apart.** -/
structure Store.Numbered (st : Store) : Prop where
  legible : st.Legible
  used : ∀ i d, st.get? i = .ok (some d) → d.seq < st.nextSeq
  distinct : ∀ i j d e, st.get? i = .ok (some d) → st.get? j = .ok (some e) → d.seq = e.seq → i = j

namespace Store

variable {st st' : Store} {i : PermissionId} {k : Key} {d : StoredDefinition}

/-- What is found after an inscribed definition was written under its identity. -/
theorem get?_of_inscribed (hd : Inscribed (i, d)) (hk : Key.ofId i = .ok k)
    (hp : st'.permissions = st.permissions.insert k d.toJson.text) (j : PermissionId) :
    st'.get? j = if j = i then .ok (some (d.mapFloats Binary64.reread)) else st.get? j := by
  rw [get?_of_write hk hp, hd.decode]
  rfl

/-- In a smaller store nothing else is found. -/
theorem get?_of_subset (hs : st'.permissions.toList ⊆ st.permissions.toList)
    (h : st'.get? i = .ok (some d)) : st.get? i = .ok (some d) := by
  obtain ⟨k, text, hk, htext, hd⟩ := get?_eq_some_iff.1 h
  exact get?_eq_some_iff.2 ⟨k, text, hk, SortedMap.mem_iff_get?.1 (hs (SortedMap.mem_iff_get?.2 htext)), hd⟩

namespace Numbered

theorem empty : Store.empty.Numbered where
  legible := .empty
  used i d h := by
    obtain ⟨k, text, -, htext, -⟩ := get?_eq_some_iff.1 h
    cases htext
  distinct i j d e h := by
    obtain ⟨k, text, -, htext, -⟩ := get?_eq_some_iff.1 h
    cases htext

/-- Removing something, and leaving numbers out. -/
theorem of_subset (h : st.Numbered) (hs : st'.permissions.toList ⊆ st.permissions.toList)
    (hn : st.nextSeq ≤ st'.nextSeq) : st'.Numbered where
  legible := h.legible.of_subset hs
  used i d hd := Nat.lt_of_lt_of_le (h.used i d (get?_of_subset hs hd)) hn
  distinct i j d e hd he := h.distinct i j d e (get?_of_subset hs hd) (get?_of_subset hs he)

/-- **Writing a definition with a number that no other permission has.** -/
theorem write (h : st.Numbered) (hd : Inscribed (i, d)) (hk : Key.ofId i = .ok k)
    (hp : st'.permissions = st.permissions.insert k d.toJson.text) (hused : d.seq < st'.nextSeq)
    (hn : st.nextSeq ≤ st'.nextSeq)
    (hfree : ∀ j e, st.get? j = .ok (some e) → e.seq = d.seq → j = i) : st'.Numbered := by
  have hget := get?_of_inscribed hd hk hp
  have hfound : ∀ j e, st'.get? j = .ok (some e) →
      (j = i ∧ e.seq = d.seq) ∨ st.get? j = .ok (some e) := by
    intro j e hj
    rw [hget] at hj
    split at hj
    next hji =>
      obtain rfl := Option.some.inj (Except.ok.inj hj)
      exact .inl ⟨hji, rfl⟩
    next => exact .inr hj
  refine ⟨h.legible.write hd hk hp, fun j e hj => ?_, fun j j' e e' hj hj' heq => ?_⟩
  · rcases hfound j e hj with ⟨-, hseq⟩ | hj
    · exact hseq ▸ hused
    · exact Nat.lt_of_lt_of_le (h.used j e hj) hn
  · rcases hfound j e hj with ⟨hji, hseq⟩ | hj <;> rcases hfound j' e' hj' with ⟨hji', hseq'⟩ | hj'
    · exact hji.trans hji'.symm
    · exact hji.trans (hfree j' e' hj' (heq.symm.trans hseq)).symm
    · exact (hfree j e hj (heq.trans hseq')).trans hji'.symm
    · exact h.distinct j j' e e' hj hj' heq

/-- **Writing a definition with the next number.** -/
theorem insert (h : st.Numbered) (hd : Inscribed (i, d)) (hk : Key.ofId i = .ok k)
    (hp : st'.permissions = st.permissions.insert k d.toJson.text) (hseq : d.seq = st.nextSeq)
    (hn : st'.nextSeq = st.nextSeq + 1) : st'.Numbered :=
  h.write hd hk hp (by omega) (by omega) fun j e hj heq => by
    have hlt := h.used j e hj
    omega

/-- **What is inserted stands last**, as it is read, and the others stand as they did. -/
theorem definitions_concat (h : st.Numbered) (hd : Inscribed (i, d)) (hk : Key.ofId i = .ok k)
    (hp : st'.permissions = st.permissions.insert k d.toJson.text) (hseq : d.seq = st.nextSeq)
    (hn : st'.nextSeq = st.nextSeq + 1) (hnew : ∀ e, st.get? i ≠ .ok (some e)) :
    ∃ ds, st.definitions = .ok ds ∧
      st'.definitions = .ok (ds ++ [(i, (d.mapFloats Binary64.reread).definition)]) := by
  have h' := h.insert hd hk hp hseq hn
  have hget := get?_of_inscribed hd hk hp
  obtain ⟨l, hl, hids, hle, hlookup⟩ := h.legible.exists_ordered_contents
  obtain ⟨l', hl', hids', hle', hlookup'⟩ := h'.legible.exists_ordered_contents
  simp only [Contents.lookup_eq_some_iff hids] at hlookup
  simp only [Contents.lookup_eq_some_iff hids'] at hlookup'
  have hnot : i ∉ l.map (·.1) := fun hi => by
    obtain ⟨e, he, rfl⟩ := List.mem_map.1 hi
    exact hnew e.2 ((hlookup e.1 e.2).1 he)
  have heq : l' = l ++ [(i, d.mapFloats Binary64.reread)] := by
    refine Contents.eq_of_ordered hids' ?_ hle' ?_ (fun e => ?_) fun a ha b hb => ?_
    · rw [List.map_append]
      refine List.nodup_append.2 ⟨hids, List.nodup_singleton _, ?_⟩
      rintro j hj _ hi rfl
      obtain rfl : j = i := List.mem_singleton.1 hi
      exact hnot hj
    · refine List.pairwise_append.2 ⟨hle, List.pairwise_singleton _ _, fun a ha b hb => ?_⟩
      obtain rfl := List.mem_singleton.1 hb
      exact Nat.le_of_lt (hseq ▸ h.used a.1 a.2 ((hlookup a.1 a.2).1 ha))
    · obtain ⟨j, e⟩ := e
      rw [hlookup', hget, List.mem_append, List.mem_singleton, hlookup]
      by_cases hj : j = i
      · subst hj
        simp [hnew e, eq_comm]
      · simp [hj]
    · exact h'.distinct a.1 b.1 a.2 b.2 ((hlookup' a.1 a.2).1 ha) ((hlookup' b.1 b.2).1 hb)
  refine ⟨l.definitions, hl, hl'.trans ?_⟩
  rw [heq, Contents.definitions, List.map_append]
  rfl

end Numbered

end Store

end TableAccess
