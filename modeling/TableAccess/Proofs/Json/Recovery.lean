import Mathlib.Data.List.Nodup
import TableAccess.Proofs.Json.Yield

/-!
# What is written can be recovered

A reader *recovers* a value from what it is written as if it reads the value there, and reads
nothing at all there once the text has cut that off for its depth. A record recovers a value from
its entries if each of its fields does.

* `Reader.Recovers`, `Record.Recovers`: the two notions.
* `Record.Recovers.reader`: **a record whose fields recover their parts recovers the whole**, also from
  entries in another order (`Record.Recovers.reader_perm`).
-/

namespace TableAccess

open Document (limit spoil ofItems ofItems_eq_map limit_ofJson_arr limit_ofJson_obj ofJson_obj depthItems_le
  depthEntries_le)

variable {α β : Type}

/-- `r` reads `a` from the document `j`, and does not read what is left of a `j` that is nested
too deeply. -/
structure Reader.Recovers (r : Reader α) (j : Json) (a : α) : Prop where
  read : ∀ s, r s (Document.ofJson j) = .ok a
  depth : ∀ s n b, r s ((Document.ofJson j).limit n) = .ok b → j.depth ≤ n

/-- The fields of `r` recover their parts of `a` from `entries`, which stand in their order. -/
structure Record.Recovers (r : Record α) (entries : List (String × Json)) (a : α) : Prop where
  keys : (entries.map (·.1)).Sublist (r.fields.map (·.name))
  check : ∀ f ∈ r.fields, ∀ j, (f.name, j) ∈ entries → ∀ s, f.check s (Document.ofJson j) = .ok ()
  depth : ∀ f ∈ r.fields, ∀ j, (f.name, j) ∈ entries →
    ∀ s n, f.check s ((Document.ofJson j).limit n) = .ok () → j.depth ≤ n
  build : ∀ s look, (∀ f ∈ r.fields, look f.name = (entries.lookup f.name).map Document.ofJson) →
    r.build s look = .ok a

/-! ## Readers -/

namespace Reader.Recovers

variable {r : Reader α} {j : Json} {a : α}

/-- Where nothing is nested there is nothing to cut off. -/
theorem of_flat (h : ∀ s, r s (Document.ofJson j) = .ok a) (hd : j.depth = 0) : r.Recovers j a :=
  ⟨h, fun _ _ _ _ => hd ▸ Nat.zero_le _⟩

/-- What holds nothing nested is cut off at once, and then refused. -/
theorem of_shallow (h : ∀ s, r s (Document.ofJson j) = .ok a) (hd : j.depth ≤ 1)
    (hf : ∀ s f b, r s (.flaw f) ≠ .ok b) : r.Recovers j a := by
  refine ⟨h, fun s n b hb => ?_⟩
  cases n with
  | zero =>
    cases j with
    | arr items => exact absurd hb (hf _ _ _)
    | obj entries => exact absurd hb (hf _ _ _)
    | _ => exact Nat.zero_le _
  | succ n => exact Nat.le_trans hd (Nat.succ_le_succ (Nat.zero_le n))

theorem string (s : String) : Reader.string.Recovers (.str s) s := of_flat (fun _ => rfl) rfl

theorem bool (b : Bool) : Reader.bool.Recovers (.bool b) b := of_flat (fun _ => rfl) rfl

theorem int {n : Int} (h : Number.minInt ≤ n ∧ n ≤ Number.maxInt) :
    Reader.int.Recovers (Json.int n) n :=
  of_flat (fun _ => if_pos h) rfl

theorem nat {n : Nat} (h : n ≤ Number.maxNat) : Reader.nat.Recovers (Json.nat n) n :=
  of_flat (fun _ => if_pos h) rfl

theorem json (h : j.IsCanonical) : Reader.json.Recovers j j :=
  ⟨fun _ => readJson_ofJson j h, fun _ n _ hb => depth_of_readJson_limit n j hb⟩

theorem limit_ne_null (n : Nat) (h : j ≠ .null) : (Document.ofJson j).limit n ≠ .null := by
  cases j <;> cases n <;> simp_all [Document.ofJson, limit, spoil]

theorem orNull_of_ne {s : Supply} {d : Document} (h : d ≠ .null) : r.orNull s d = (r s d).map some := by
  cases d <;> first | rfl | exact absurd rfl h

theorem orNull (h : r.Recovers j a) (hj : j ≠ .null) : r.orNull.Recovers j (some a) where
  read s := by
    have hne : Document.ofJson j ≠ .null := by cases j <;> simp_all [Document.ofJson]
    rw [orNull_of_ne hne, h.read]
    rfl
  depth s n b hb := by
    rw [orNull_of_ne (limit_ne_null n hj)] at hb
    obtain ⟨b', hb', -⟩ := map_eq_ok.1 hb
    exact h.depth s n b' hb'

theorem list {l : List α} {w : α → Json} (h : ∀ a ∈ l, r.Recovers (w a) a) :
    (Reader.list r).Recovers (.arr (l.map w)) l where
  read s := by
    show (ofItems (l.map w)).mapM (r s) = .ok l
    rw [ofItems_eq_map, mapM_eq_ok, List.forall₂_map_left_iff, List.forall₂_map_left_iff,
      List.forall₂_same]
    exact fun a ha => (h a ha).read s
  depth s n b hb := by
    cases n with
    | zero => cases hb
    | succ n =>
      rw [limit_ofJson_arr] at hb
      refine Nat.succ_le_succ (depthItems_le.2 fun j hj => ?_)
      obtain ⟨a, ha, rfl⟩ := List.mem_map.1 hj
      obtain ⟨b', -, hb'⟩ := ok_of_mem_mapM hb (List.mem_map_of_mem hj)
      exact (h a ha).depth s n b' hb'

theorem map {f : α → β} (h : r.Recovers j a) : (Reader.map f r).Recovers j (f a) where
  read s := by rw [Reader.map, h.read]; rfl
  depth s n b hb := by
    obtain ⟨b', hb', -⟩ := map_eq_ok.1 hb
    exact h.depth s n b' hb'

/-- An object of free keys. -/
theorem object {m : SortedMap String Json} (h : ∀ e ∈ m.toList, e.2.IsCanonical) :
    Reader.object.Recovers (.obj m.toList) m where
  read s := by
    rw [Document.ofJson]
    simp only [Reader.object, readEntries_ofEntries m.toList (Json.haveCanonical_iff.2 h)]
    show Except.ok (SortedMap.ofList m.toList) = _
    rw [SortedMap.ofList_toList]
  depth s n b hb := by
    cases n with
    | zero => cases hb
    | succ n =>
      rw [Document.ofJson, limit] at hb
      obtain ⟨r, hr, -⟩ := bind_eq_ok.1 hb
      exact Nat.succ_le_succ (depth_of_readEntries_limit n m.toList hr)

/-- A form of a choice with its payload. -/
theorem choice {forms : List (Form α)} {name : String} {r : Reader β} {f : β → α} {b : β}
    (hn : Form.named forms name = .ok (.holding name r f)) (h : r.Recovers j b) :
    (Reader.choice forms).Recovers (.obj [(name, j)]) (f b) where
  read s := by
    have hf : ∀ s, (Form.holding name r f).read s (some (Document.ofJson j)) = .ok (f b) := fun s =>
      map_eq_ok.2 ⟨b, h.read s, rfl⟩
    rw [ofJson_obj]
    cases s <;> simp only [List.map_cons, List.map_nil, Reader.choice, hn, bind_eq_ok]
    · exact ⟨_, rfl, f b, hf _, rfl⟩
    all_goals exact ⟨_, rfl, hf _⟩
  depth s n b hb := by
    cases n with
    | zero => cases s <;> cases hb
    | succ n =>
      rw [limit_ofJson_obj] at hb
      have hread : ∃ s' a, r s' ((Document.ofJson j).limit n) = .ok a := by
        cases s <;> simp only [List.map_cons, List.map_nil, Reader.choice, hn, bind_eq_ok] at hb
        all_goals
          obtain ⟨_, hform, hb⟩ := hb
          obtain rfl := Except.ok.inj hform
        · obtain ⟨_, hb, -⟩ := hb
          obtain ⟨a, ha, -⟩ := map_eq_ok.1 hb
          exact ⟨_, a, ha⟩
        all_goals
          obtain ⟨a, ha, -⟩ := map_eq_ok.1 hb
          exact ⟨_, a, ha⟩
      obtain ⟨s', a, ha⟩ := hread
      refine Nat.succ_le_succ (depthEntries_le.2 fun e he => ?_)
      obtain rfl := List.mem_singleton.1 he
      exact h.depth s' n a ha

end Reader.Recovers

/-! ## Records -/

namespace Record

theorem fields_seq (f : Record (α → β)) (r : Record α) : (f <*> r).fields = f.fields ++ r.fields := rfl

/-- A field is found by its name where all names are distinct. -/
theorem find?_name {fields : List Field} (hn : (names fields).Nodup) {f : Field} (hf : f ∈ fields) :
    (fields.find? fun g => g.name == f.name || g.aliases.contains f.name) = some f := by
  induction fields with
  | nil => cases hf
  | cons g rest ih =>
    rw [names, List.flatMap_cons] at hn
    obtain ⟨-, hrest, hdis⟩ := List.nodup_append.1 hn
    rcases List.mem_cons.1 hf with rfl | hf
    · simp
    · have hmem : f.name ∈ names rest := List.mem_flatMap.2 ⟨f, hf, List.mem_cons_self⟩
      have hne : (g.name == f.name || g.aliases.contains f.name) = false := by
        rw [Bool.or_eq_false_iff]
        constructor
        · exact beq_false_of_ne (hdis _ List.mem_cons_self _ hmem)
        · rw [List.contains_eq_mem, decide_eq_false_iff_not]
          exact fun h => hdis _ (List.mem_cons_of_mem _ h) _ hmem rfl
      rw [List.find?_cons_of_neg (by simpa using hne)]
      exact ih hrest hf

theorem nodup_of_names {fields : List Field} (hn : (names fields).Nodup) :
    (fields.map (·.name)).Nodup := by
  refine hn.sublist ?_
  rw [names]
  clear hn
  induction fields with
  | nil => exact List.Sublist.slnil
  | cons f rest ih =>
    rw [List.map_cons, List.flatMap_cons, List.cons_append]
    exact List.Sublist.cons_cons _ (ih.trans (List.sublist_append_right _ _))

/-- Where no key comes twice, the order of the entries does not matter to a look-up. -/
theorem lookup_perm {l l' : List (String × β)} (hp : l.Perm l') (hn : (l.map (·.1)).Nodup) (k : String) :
    l.lookup k = l'.lookup k := by
  induction hp with
  | nil => rfl
  | cons e _ ih => rw [List.lookup_cons, List.lookup_cons, ih (List.nodup_cons.1 hn).2]
  | swap e e' l =>
    have hne : e'.1 ≠ e.1 := fun h => (List.nodup_cons.1 hn).1 (List.mem_cons.2 (.inl h))
    rw [List.lookup_cons, List.lookup_cons, List.lookup_cons, List.lookup_cons]
    cases h : k == e.1 with
    | true => rw [beq_false_of_ne (beq_iff_eq.1 h ▸ hne.symm)]
    | false => rfl
  | trans hp _ ih ih' => rw [ih hn, ih' ((hp.map (·.1)).nodup_iff.1 hn)]

/-- Every entry that a record has taken has passed the check of its field. -/
theorem check_of_collect {fields : List Field} {closed : Bool} {s : Supply}
    {entries found r : List (String × Document)}
    (h : collect fields closed s found entries = .ok r) {k : String} {d : Document}
    (hm : (k, d) ∈ entries) {f : Field}
    (hf : (fields.find? fun f => f.name == k || f.aliases.contains k) = some f) :
    f.check s d = .ok () := by
  induction entries generalizing found with
  | nil => cases hm
  | cons e rest ih =>
    rcases collect_cons_cases h with ⟨f', hf', hcheck, h⟩ | ⟨hnone, h⟩
    · rcases List.mem_cons.1 hm with rfl | hm
      · obtain rfl := Option.some.inj (hf'.symm.trans hf)
        exact hcheck
      · exact ih h hm
    · rcases List.mem_cons.1 hm with rfl | hm
      · cases hnone.symm.trans hf
      · exact ih h hm

namespace Recovers

theorem map {f : α → β} {r : Record α} {entries : List (String × Json)} {a : α}
    (h : r.Recovers entries a) : (f <$> r).Recovers entries (f a) where
  keys := h.keys
  check := h.check
  depth := h.depth
  build s look hl := build_map_eq_ok.2 ⟨a, h.build s look hl, rfl⟩

/-- Two records next to each other, whose fields have different names. -/
theorem seq {f : Record (α → β)} {r : Record α} {l l' : List (String × Json)} {g : α → β} {a : α}
    (hf : f.Recovers l g) (hr : r.Recovers l' a)
    (hn : (f.fields.map (·.name) ++ r.fields.map (·.name)).Nodup) :
    (f <*> r).Recovers (l ++ l') (g a) := by
  have hn := List.disjoint_of_nodup_append hn
  -- an entry belongs to the record that has a field of its name
  have hl : ∀ x ∈ f.fields, ∀ j, (x.name, j) ∉ l' := fun x hx j hj =>
    hn (List.mem_map_of_mem hx) (hr.keys.subset (List.mem_map_of_mem (f := (·.1)) hj))
  have hl' : ∀ x ∈ r.fields, ∀ j, (x.name, j) ∉ l := fun x hx j hj =>
    hn (hf.keys.subset (List.mem_map_of_mem (f := (·.1)) hj)) (List.mem_map_of_mem hx)
  have split : ∀ x ∈ (f <*> r).fields, ∀ j, (x.name, j) ∈ l ++ l' →
      (x ∈ f.fields ∧ (x.name, j) ∈ l) ∨ (x ∈ r.fields ∧ (x.name, j) ∈ l') := by
    intro x hx j hj
    rcases List.mem_append.1 hx with hx | hx
    · exact .inl ⟨hx, (List.mem_append.1 hj).resolve_right (hl x hx j)⟩
    · exact .inr ⟨hx, (List.mem_append.1 hj).resolve_left (hl' x hx j)⟩
  refine ⟨?_, fun x hx j hj => ?_, fun x hx j hj => ?_, fun s look hlook => ?_⟩
  · rw [List.map_append, fields_seq, List.map_append]
    exact hf.keys.append hr.keys
  · rcases split x hx j hj with ⟨hx, hj⟩ | ⟨hx, hj⟩
    · exact hf.check x hx j hj
    · exact hr.check x hx j hj
  · rcases split x hx j hj with ⟨hx, hj⟩ | ⟨hx, hj⟩
    · exact hf.depth x hx j hj
    · exact hr.depth x hx j hj
  · refine build_seq_eq_ok.2 ⟨g, a, hf.build s look fun x hx => ?_, hr.build s look fun x hx => ?_, rfl⟩
    · have hnone : l'.lookup x.name = none :=
        List.lookup_eq_none_iff.2 fun e he => bne_iff_ne.2 fun h => hl x hx e.2 (by rw [h]; exact he)
      rw [hlook x (List.mem_append_left _ hx), List.lookup_append, hnone, Option.or_none]
    · have hnone : l.lookup x.name = none :=
        List.lookup_eq_none_iff.2 fun e he => bne_iff_ne.2 fun h => hl' x hx e.2 (by rw [h]; exact he)
      rw [hlook x (List.mem_append_right _ hx), List.lookup_append, hnone, Option.none_or]

variable {r : Reader α} {name : String} {j : Json} {a : α}

/-- A record of one field, which is written. -/
theorem of_field {x : Record α} {aliases : List String} {optional : Bool}
    (hx : x.fields = [⟨name, aliases, optional, fun s d => (r s d).map fun _ => ()⟩])
    (hb : ∀ s look d, look name = some d → x.build s look = r s d) (h : r.Recovers j a) :
    x.Recovers [(name, j)] a where
  keys := by rw [hx]; exact List.Sublist.refl _
  check f hf j' hj' s := by
    rw [hx] at hf
    obtain rfl := List.mem_singleton.1 hf
    obtain rfl := (Prod.ext_iff.1 (List.mem_singleton.1 hj')).2
    exact map_eq_ok.2 ⟨a, h.read s, rfl⟩
  depth f hf j' hj' s n hc := by
    rw [hx] at hf
    obtain rfl := List.mem_singleton.1 hf
    obtain rfl := (Prod.ext_iff.1 (List.mem_singleton.1 hj')).2
    obtain ⟨b, hb, -⟩ := map_eq_ok.1 hc
    exact h.depth s n b hb
  build s look hl := by
    have hl := hl _ (hx ▸ List.mem_cons_self)
    simp only [List.lookup_cons_self, Option.map_some] at hl
    rw [hb s look _ hl]
    exact h.read s

theorem required (h : r.Recovers j a) (aliases : List String) :
    (Record.required name r aliases).Recovers [(name, j)] a :=
  of_field rfl (fun s look d hd => by simp only [Record.required, hd]) h

theorem withDefault (h : r.Recovers j a) (absent : α) :
    (Record.withDefault name r absent).Recovers [(name, j)] a :=
  of_field rfl (fun s look d hd => by simp only [Record.withDefault, hd]) h

theorem absent (absent : α) : (Record.withDefault name r absent).Recovers [] absent where
  keys := List.nil_sublist _
  check _ _ _ hj := by cases hj
  depth _ _ _ hj := by cases hj
  build s look hl := by
    have hl := hl _ List.mem_cons_self
    simp only [List.lookup_nil, Option.map_none] at hl
    simp only [Record.withDefault, hl]

/-- A field that is written only if there is something, which is never written as null. -/
theorem maybe {o : Option α} {w : α → Json} (h : ∀ a ∈ o, r.Recovers (w a) a ∧ w a ≠ .null) :
    (Record.maybe name r).Recovers ( Json.entry? name w o) o := by
  cases o with
  | none => exact absent none
  | some a =>
    obtain ⟨hr, hne⟩ := h a rfl
    exact withDefault (hr.orNull hne) none

/-- **A record whose fields recover their parts recovers the whole** from its entries in any order. -/
theorem reader_perm {r : Record α} {entries entries' : List (String × Json)} (h : r.Recovers entries a)
    (hp : entries'.Perm entries) (hn : (names r.fields).Nodup) (closed : Bool) :
    (r.read closed).Recovers (.obj entries') a := by
  have hkeys : (entries.map (·.1)).Nodup := (nodup_of_names hn).sublist h.keys
  have hmem : ∀ e ∈ entries', ∃ f ∈ r.fields, f.name = e.1 ∧ (f.name, e.2) ∈ entries := fun e he => by
    have he := hp.subset he
    obtain ⟨f, hf, hfe⟩ := List.mem_map.1 (h.keys.subset (List.mem_map_of_mem (f := (·.1)) he))
    exact ⟨f, hf, hfe, by rw [hfe]; exact he⟩
  constructor
  · intro s
    have hlook : ∀ k, (entries'.map fun e => (e.1, Document.ofJson e.2)).lookup k =
        (entries.lookup k).map Document.ofJson := by
      intro k
      rw [← lookup_perm hp ((hp.map (·.1)).nodup_iff.2 hkeys) k]
      clear h hmem hkeys hp
      induction entries' with
      | nil => rfl
      | cons e rest ih =>
        rw [List.map_cons, List.lookup_cons, List.lookup_cons, ih]
        cases k == e.1 <;> rfl
    rw [ofJson_obj, read_object]
    · exact h.build s _ fun f _ => hlook f.name
    · intro e he
      obtain ⟨e', he', rfl⟩ := List.mem_map.1 he
      obtain ⟨f, hf, hfe, hm⟩ := hmem e' he'
      exact ⟨f, hfe ▸ find?_name hn hf, hfe, h.check f hf e'.2 hm s⟩
    · rw [List.map_map]
      exact (hp.map (·.1)).nodup_iff.2 hkeys
  · intro s n b hb
    cases n with
    | zero => cases hb
    | succ n =>
      rw [limit_ofJson_obj] at hb
      obtain ⟨found, hfound, -⟩ := bind_eq_ok.1 hb
      refine Nat.succ_le_succ (depthEntries_le.2 fun e he => ?_)
      obtain ⟨f, hf, hfe, hentry⟩ := hmem e he
      have hm := List.mem_map_of_mem (f := fun e => (e.1, (Document.ofJson e.2).limit n)) he
      exact h.depth f hf e.2 hentry s n (check_of_collect hfound hm (hfe ▸ find?_name hn hf))

theorem reader {r : Record α} {entries : List (String × Json)} (h : r.Recovers entries a)
    (hn : (names r.fields).Nodup) (closed : Bool) : (r.read closed).Recovers (.obj entries) a :=
  h.reader_perm (.refl _) hn closed

end Recovers

end Record

end TableAccess
