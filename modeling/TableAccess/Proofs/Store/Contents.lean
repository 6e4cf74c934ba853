import Mathlib.Data.List.Nodup
import TableAccess.Proofs.Permission.Stored
import TableAccess.Proofs.Sorted
import TableAccess.Proofs.Store.Key

/-!
# What a store contains

A store *holds* a list of stored definitions if its bindings are those of the list, each under the
key of its identity, and the list stands in order of insertion: the numbers increase and are all used
up. What reading a store gives is then said by the list alone.

* `Store.Holds`: the notion, which the empty store has of the empty list.
* `Holds.get?_eq_ok`: **looking a permission up is looking it up in the list.**
* `Holds.startingWith_eq_ok`: **scanning the store gives the part of the list with that start, in its
  order**, exactly if all of it can be read.
-/

namespace TableAccess

/-- Stored definitions with their identities, in order of insertion. -/
abbrev Contents := List (PermissionId × StoredDefinition)

namespace Contents

/-- The list without a permission. -/
def without (l : Contents) (i : PermissionId) : Contents := l.filter fun e => e.1 != i

/-- The list with another definition in the place of that of a permission. -/
def replace (l : Contents) (i : PermissionId) (d : StoredDefinition) : Contents :=
  l.map fun e => if e.1 = i then (i, d) else e

/-- The definitions in the list, without their numbers. -/
def definitions (l : Contents) : List (PermissionId × Definition) := l.map fun e => (e.1, e.2.definition)

variable {l : Contents} {i j : PermissionId} {d : StoredDefinition} {e : PermissionId × StoredDefinition}

theorem mem_without : e ∈ l.without i ↔ e ∈ l ∧ e.1 ≠ i := by
  rw [without, List.mem_filter, bne_iff_ne]

theorem without_sublist (l : Contents) (i : PermissionId) : (l.without i).Sublist l :=
  List.filter_sublist

theorem without_of_not_mem (h : i ∉ l.map (·.1)) : l.without i = l :=
  List.filter_eq_self.2 fun e he => bne_iff_ne.2 fun hei => h (List.mem_map.2 ⟨e, he, hei⟩)

theorem map_fst_replace (l : Contents) (i : PermissionId) (d : StoredDefinition) :
    (l.replace i d).map (·.1) = l.map (·.1) := by
  rw [replace, List.map_map]
  refine List.map_congr_left fun e _ => ?_
  by_cases h : e.1 = i <;> simp [h]

theorem lookup_eq_some_iff (h : (l.map (·.1)).Nodup) : l.lookup i = some d ↔ (i, d) ∈ l :=
  lookup_eq_some_iff_mem h

theorem map_fst_definitions (l : Contents) : l.definitions.map (·.1) = l.map (·.1) := by
  rw [definitions, List.map_map]
  rfl

theorem lookup_definitions (l : Contents) (i : PermissionId) :
    l.definitions.lookup i = (l.lookup i).map (·.definition) := by
  induction l with
  | nil => rfl
  | cons e rest ih =>
    rw [definitions, List.map_cons, List.lookup_cons, List.lookup_cons, ← definitions, ih]
    cases i == e.1 <;> rfl

theorem lookup_eq_none_iff : l.lookup i = none ↔ i ∉ l.map (·.1) := by
  rw [List.lookup_eq_none_iff, List.mem_map]
  constructor
  · rintro h ⟨e, he, rfl⟩
    exact bne_iff_ne.1 (h e he) rfl
  · exact fun h e he => bne_iff_ne.2 fun hie => h ⟨e, he, hie.symm⟩

theorem lookup_concat (h : i ∉ l.map (·.1)) (d : StoredDefinition) : (l ++ [(i, d)]).lookup i = some d := by
  rw [List.lookup_append, lookup_eq_none_iff.2 h]
  simp

end Contents

/-- What a cache gets to see of a permission is what is stored of it, without its number. -/
theorem Store.view_definition? (st : Store) (i : PermissionId) :
    st.view.definition? i = (st.get? i).map fun o => o.map (·.definition) := by
  simp only [view, definition?]
  cases st.get? i <;> rfl

/-- **The store `st` holds the stored definitions in `l`**, which stand in order of insertion. -/
structure Store.Holds (st : Store) (l : Contents) : Prop where
  ids : (l.map (·.1)).Nodup
  increasing : l.Pairwise fun a b => a.2.seq < b.2.seq
  used : ∀ e ∈ l, e.2.seq < st.nextSeq
  storable : ∀ e ∈ l, e.2.definition.clause.Storable
  bindings : ∀ k text, st.permissions.get? k = some text ↔
    ∃ e ∈ l, Key.ofId e.1 = .ok k ∧ e.2.toJson.text = text
  keys : ∀ e ∈ l, ∃ k, Key.ofId e.1 = .ok k

namespace Store.Holds

variable {st : Store} {l : Contents} {i : PermissionId} {k : Key}

theorem empty : Store.empty.Holds [] where
  ids := .nil
  increasing := .nil
  used _ he := by cases he
  storable _ he := by cases he
  bindings k text := ⟨(by cases ·), fun ⟨_, he, _⟩ => (by cases he)⟩
  keys _ he := by cases he

/-- The text under the key of a permission. -/
theorem get?_text (h : st.Holds l) (hk : Key.ofId i = .ok k) :
    st.permissions.get? k = (l.lookup i).map fun d => d.toJson.text := by
  have hmem : ∀ text, st.permissions.get? k = some text ↔
      (l.lookup i).map (fun d => d.toJson.text) = some text := by
    intro text
    rw [h.bindings, Option.map_eq_some_iff]
    constructor
    · rintro ⟨⟨j, d⟩, he, hj, htext⟩
      obtain rfl := Key.ofId_injective hj hk
      exact ⟨d, (Contents.lookup_eq_some_iff h.ids).2 he, htext⟩
    · rintro ⟨d, hd, htext⟩
      exact ⟨(i, d), (Contents.lookup_eq_some_iff h.ids).1 hd, hk, htext⟩
  exact Option.ext hmem

/-- **Looking a permission up is looking it up in the list**, if what stands there can be read. -/
theorem get?_eq_ok (h : st.Holds l) {o : Option StoredDefinition} :
    st.get? i = .ok o ↔
      (∃ k, Key.ofId i = .ok k) ∧ (∀ d ∈ l.lookup i, d.Readable) ∧ o = l.lookup i := by
  simp only [Store.get?, bind_eq_ok]
  constructor
  · rintro ⟨k, hk, ho⟩
    rw [h.get?_text hk] at ho
    cases hd : l.lookup i with
    | none =>
      rw [hd] at ho
      exact ⟨⟨k, hk⟩, (by simp), (pure_eq_ok.1 ho).symm⟩
    | some d =>
      have hs := h.storable _ ((Contents.lookup_eq_some_iff h.ids).1 hd)
      rw [hd] at ho
      obtain ⟨d', hd', hpure⟩ := bind_eq_ok.1 ho
      obtain ⟨hr, rfl⟩ := (StoredDefinition.decode_text_eq_ok hs).1 hd'
      refine ⟨⟨k, hk⟩, fun d hd => ?_, (pure_eq_ok.1 hpure).symm⟩
      obtain rfl := Option.some.inj hd
      exact hr
  · rintro ⟨⟨k, hk⟩, hr, rfl⟩
    refine ⟨k, hk, ?_⟩
    rw [h.get?_text hk]
    cases hd : l.lookup i with
    | none => rfl
    | some d =>
      have hs := h.storable _ ((Contents.lookup_eq_some_iff h.ids).1 hd)
      exact bind_eq_ok.2 ⟨d, (StoredDefinition.decode_text_eq_ok hs).2 ⟨hr d hd, rfl⟩, rfl⟩

/-! ## Scans -/

theorem eq_of_seq_eq (h : st.Holds l) {e e' : PermissionId × StoredDefinition} (he : e ∈ l)
    (he' : e' ∈ l) (heq : e.2.seq = e'.2.seq) : e = e' :=
  List.inj_on_of_nodup_map (List.pairwise_map.2 (h.increasing.imp Nat.ne_of_lt)) he he' heq

theorem eq_of_fst_eq (h : st.Holds l) {e e' : PermissionId × StoredDefinition} (he : e ∈ l)
    (he' : e' ∈ l) (heq : e.1 = e'.1) : e = e' :=
  List.inj_on_of_nodup_map h.ids he he' heq

/-- What a binding of the store says. -/
theorem entry_eq_ok (h : st.Holds l) {b : Key × String} (hb : b ∈ st.permissions.toList)
    {e : PermissionId × StoredDefinition} :
    Store.entry b = .ok e ↔ e ∈ l ∧ Key.ofId e.1 = .ok b.1 ∧ e.2.Readable := by
  obtain ⟨e', hm, hk, htext⟩ := (h.bindings b.1 b.2).1 (SortedMap.mem_iff_get?.1 hb)
  have hd := @StoredDefinition.decode_text_eq_ok _ (h.storable _ hm) e.2
  rw [htext] at hd
  simp only [Store.entry, Key.id?_ofId hk, bind_eq_ok, pure_eq_ok]
  constructor
  · rintro ⟨d, hd', rfl⟩
    obtain ⟨hr, rfl⟩ := hd.1 hd'
    exact ⟨hm, hk, hr⟩
  · rintro ⟨he, hek, hr⟩
    obtain rfl := h.eq_of_fst_eq hm he (Key.ofId_injective hk hek)
    exact ⟨_, hd.2 ⟨hr, rfl⟩, rfl⟩

/-- Different bindings say different things, since each says its key. -/
theorem nodup_of_scan (h : st.Holds l) {bs : List (Key × String)}
    (hbs : bs.Sublist st.permissions.toList) {found : Contents}
    (hf : bs.mapM Store.entry = .ok found) : found.Nodup := by
  have hkeys : bs.Pairwise fun a b => a.1 ≠ b.1 :=
    (st.permissions.ordered.sublist hbs).imp ne_of_compare_lt
  rw [mapM_eq_ok] at hf
  induction hf with
  | nil => exact .nil
  | @cons b e bs found hbe hrest ih =>
    -- said again further on, the entry would stand under the key of another binding
    obtain ⟨hne, hkeys⟩ := List.pairwise_cons.1 hkeys
    refine List.nodup_cons.2 ⟨fun he => ?_, ih ((List.sublist_cons_self _ _).trans hbs) hkeys⟩
    obtain ⟨b', hb', hbe'⟩ := mem_of_mapM (mapM_eq_ok.2 hrest) he
    have hk := ((h.entry_eq_ok (hbs.subset List.mem_cons_self)).1 hbe).2.1
    have hk' := ((h.entry_eq_ok (hbs.subset (List.mem_cons_of_mem _ hb'))).1 hbe').2.1
    exact hne b' hb' (Except.ok.inj (hk.symm.trans hk'))

/-- The entries found in a scan are those of the list with this start, in some order. -/
theorem mem_scan (h : st.Holds l) {start : Key} {found : Contents}
    (hf : (st.permissions.toList.filter fun b => start.isPrefixOf b.1).mapM Store.entry = .ok found)
    {e : PermissionId × StoredDefinition} :
    e ∈ found ↔ e ∈ l.filter fun e => Key.starts start e.1 := by
  rw [List.mem_filter]
  constructor
  · intro he
    obtain ⟨b, hb, hbe⟩ := mem_of_mapM hf he
    obtain ⟨hb, hstart⟩ := List.mem_filter.1 hb
    obtain ⟨hel, hk, -⟩ := (h.entry_eq_ok hb).1 hbe
    exact ⟨hel, by rw [Key.starts_of_ofId hk]; exact hstart⟩
  · rintro ⟨he, hstart⟩
    obtain ⟨k, hk⟩ := h.keys e he
    rw [Key.starts_of_ofId hk] at hstart
    have hb := SortedMap.mem_iff_get?.2 ((h.bindings k _).2 ⟨e, he, hk, rfl⟩)
    obtain ⟨e', he', hbe'⟩ := ok_of_mem_mapM hf (List.mem_filter.2 ⟨hb, hstart⟩)
    obtain ⟨hel', hk', -⟩ := (h.entry_eq_ok hb).1 hbe'
    exact h.eq_of_fst_eq he hel' (Key.ofId_injective hk hk') ▸ he'

/-- **Scanning the store gives the part of the list with that start**, in the order of insertion,
exactly if all of it can be read. -/
theorem startingWith_eq_ok (h : st.Holds l) {start : Key} {r : Contents} :
    st.startingWith start = .ok r ↔
      (∀ e ∈ l.filter fun e => Key.starts start e.1, e.2.Readable) ∧
        r = l.filter fun e => Key.starts start e.1 := by
  have sorted : ∀ {found}, (st.permissions.toList.filter fun b => start.isPrefixOf b.1).mapM
      Store.entry = .ok found →
      found.mergeSort (fun a b => a.2.seq ≤ b.2.seq) = l.filter fun e => Key.starts start e.1 := by
    intro found hf
    have hperm := (List.mergeSort_perm found fun a b => decide (a.2.seq ≤ b.2.seq)).trans
      ((List.perm_ext_iff_of_nodup (h.nodup_of_scan List.filter_sublist hf)
        (h.ids.of_map.filter _)).2 fun e => h.mem_scan hf)
    have hmerged : (found.mergeSort fun a b => a.2.seq ≤ b.2.seq).Pairwise
        fun a b => a.2.seq ≤ b.2.seq := by
      have hle : (found.mergeSort fun a b => a.2.seq ≤ b.2.seq).Pairwise
          fun a b => decide (a.2.seq ≤ b.2.seq) = true :=
        List.pairwise_mergeSort (by simp; omega) (by simp; omega) found
      simpa using hle
    have hlist : (l.filter fun e => Key.starts start e.1).Pairwise fun a b => a.2.seq ≤ b.2.seq :=
      (h.increasing.filter _).imp Nat.le_of_lt
    -- both lists are in order, and no number comes twice
    refine List.Perm.eq_of_pairwise (fun a b ha hb hab hba => ?_) hmerged hlist hperm
    exact h.eq_of_seq_eq (List.mem_filter.1 (hperm.subset ha)).1 (List.mem_filter.1 hb).1
      (Nat.le_antisymm hab hba)
  rw [Store.startingWith, bind_eq_ok]
  constructor
  · rintro ⟨found, hf, hr⟩
    rw [sorted hf] at hr
    refine ⟨fun e he => ?_, (pure_eq_ok.1 hr).symm⟩
    obtain ⟨b, hb, hbe⟩ := mem_of_mapM hf ((h.mem_scan hf).2 he)
    exact ((h.entry_eq_ok (List.mem_filter.1 hb).1).1 hbe).2.2
  · rintro ⟨hr, rfl⟩
    obtain ⟨found, hf⟩ : ∃ found, (st.permissions.toList.filter fun b => start.isPrefixOf b.1).mapM
        Store.entry = .ok found := by
      refine exists_mapM_eq_ok fun b hb => ?_
      obtain ⟨hb, hstart⟩ := List.mem_filter.1 hb
      obtain ⟨e, he, hk, -⟩ := (h.bindings b.1 b.2).1 (SortedMap.mem_iff_get?.1 hb)
      have hs : e ∈ l.filter fun e => Key.starts start e.1 :=
        List.mem_filter.2 ⟨he, by rw [Key.starts_of_ofId hk]; exact hstart⟩
      exact ⟨e, (h.entry_eq_ok hb).2 ⟨he, hk, hr e hs⟩⟩
    exact ⟨found, hf, pure_eq_ok.2 (sorted hf)⟩

theorem startingWith_nil (h : st.Holds l) (hr : ∀ e ∈ l, e.2.Readable) :
    st.startingWith [] = .ok l := by
  have hall : (l.filter fun e => Key.starts [] e.1) = l := by
    refine List.filter_eq_self.2 fun e he => ?_
    obtain ⟨k, hk⟩ := h.keys e he
    exact Key.starts_nil hk
  exact h.startingWith_eq_ok.2 ⟨fun e he => hr e (List.mem_filter.1 he).1, hall.symm⟩

/-- **A store whose list can be read has the definitions of the list.** -/
theorem definitions_eq (h : st.Holds l) (hr : ∀ e ∈ l, e.2.Readable) :
    st.definitions = .ok l.definitions := by
  simp only [Store.definitions, h.startingWith_nil hr, ok_bind]
  rfl

end Store.Holds

end TableAccess
