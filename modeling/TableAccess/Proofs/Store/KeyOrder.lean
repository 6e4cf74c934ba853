import TableAccess.Proofs.Store.KeyReading

/-!
# Keys are ordered as their names

Since each name in a key has its length in front, the first place where two keys differ lies in the first
names that differ: either at their lengths, or behind these, at a place that both names have. So keys are
compared as lists of names are, shorter names being smaller, and a key starts with another only where its
names start with those of the other, whatever the names are made of.

* `compareNames`: the order of names.
* `compare_flatMap_part`: **comparing keys is comparing their names, one after the other.**
* `starts_and_order_exact`: what stands at the start of a key, and in which order keys stand.
-/

namespace TableAccess.Key

/-- The order of names in keys: shorter ones first, and those of one length by their bytes. -/
def compareNames : String → String → Ordering :=
  compareLex (compareOn fun s => (bytes s).length) (compareOn bytes)

variable {l m : List String} {s t : String}

/-! ## Comparing keys -/

theorem compare_toNat (a b : UInt8) : compare a.toNat b.toNat = compare a b := by
  simp [compare, compareOfLessAndEq, UInt8.lt_iff_toNat_lt, ← UInt8.toNat_inj]

/-- Keys are compared by their first names, and where these are the same, by what follows. -/
theorem compare_part_append (hs : NameFits s) (ht : NameFits t) (x y : Key) :
    compare (part s ++ x) (part t ++ y) = (compareNames s t).then (compare x y) := by
  have hcons : compare (part s ++ x) (part t ++ y) =
      (compare (bytes s).length (bytes t).length).then (compare (bytes s ++ x) (bytes t ++ y)) := by
    rw [← toNat_length hs, ← toNat_length ht, compare_toNat]
    simp only [part, List.cons_append, List.compare_eq_compareLex, List.compareLex_cons_cons]
  rw [hcons]
  show _ = ((compare (bytes s).length (bytes t).length).then (compare (bytes s) (bytes t))).then _
  -- the names are compared only where they are of one length
  cases hlength : compare (bytes s).length (bytes t).length with
  | lt => rfl
  | gt => rfl
  | eq => exact compare_append (Nat.compare_eq_eq.1 hlength) x y

/-- **Comparing keys is comparing their names**, one after the other. -/
theorem compare_flatMap_part (hl : ∀ s ∈ l, NameFits s) (hm : ∀ s ∈ m, NameFits s) :
    compare (l.flatMap part) (m.flatMap part) = List.compareLex compareNames l m := by
  induction l generalizing m with
  | nil => cases m <;> rfl
  | cons s l ih =>
    obtain ⟨hs, hl⟩ := List.forall_mem_cons.1 hl
    cases m with
    | nil => rfl
    | cons t m =>
      obtain ⟨ht, hm⟩ := List.forall_mem_cons.1 hm
      rw [List.flatMap_cons, List.flatMap_cons, compare_part_append hs ht, ih hl hm,
        List.compareLex_cons_cons]

/-! ## What is exact -/

/-- **Scans of keys and their order are exact.** Names that fit have keys, one of which starts with another
exactly if the names start with the names, and which are ordered as the lists of names are, by the lengths of
names and then by their bytes. So the key of a permission starts with that of a table exactly if the
permission is on the table, and with that of a source exactly if it is in the source. -/
theorem starts_and_order_exact :
    (∀ l m : List String, (∀ s ∈ l, NameFits s) → (∀ s ∈ m, NameFits s) →
      ∃ k k', ofParts l = .ok k ∧ ofParts m = .ok k' ∧ (k' <+: k ↔ m <+: l) ∧
        compare k k' = List.compareLex compareNames l m) ∧
    ∀ (i : PermissionId) (source table : String), (∀ name ∈ [i.source, i.table, i.role], NameFits name) →
      NameFits source → NameFits table →
      ∃ k start start', ofId i = .ok k ∧ ofTable source table = .ok start ∧ ofSource source = .ok start' ∧
        (start <+: k ↔ i.source = source ∧ i.table = table) ∧ (start' <+: k ↔ i.source = source) := by
  have hkey : ∀ {l : List String}, (∀ s ∈ l, NameFits s) → ofParts l = .ok (l.flatMap part) :=
    fun hl => ofParts_eq_ok.2 ⟨hl, rfl⟩
  refine ⟨fun l m hl hm => ⟨_, _, hkey hl, hkey hm, flatMap_part_prefix hm hl, compare_flatMap_part hl hm⟩,
    fun i source table hi hsource htable => ?_⟩
  obtain ⟨k, hk⟩ := exists_ofId hi
  have hstart : ofTable source table = .ok ([source, table].flatMap part) :=
    hkey (by simp [hsource, htable])
  have hstart' : ofSource source = .ok ([source].flatMap part) := hkey (by simp [hsource])
  refine ⟨k, _, _, hk, hstart, hstart', ?_, ?_⟩
  · rw [← List.isPrefixOf_iff_prefix, ← starts_of_ofId hk, starts_ofTable hstart hk]
  · rw [← List.isPrefixOf_iff_prefix, ← starts_of_ofId hk, starts_ofSource hstart' hk]

/-- A permission on authors starts with its table and its source; and a table with a short name comes before
one with a longer name. -/
theorem starts_and_order_exact_authors :
    let i : PermissionId := ⟨"default", "author", "user", .delete⟩
    (∀ name ∈ ["default", "author", "user", "b", "aa"], NameFits name) ∧
      (∃ k k', ofParts ["default", "b"] = .ok k ∧ ofParts ["default", "aa"] = .ok k' ∧ ¬ k' <+: k ∧
        compare k k' = .lt) ∧
      ∃ k start start', ofId i = .ok k ∧ ofTable "default" "author" = .ok start ∧
        ofSource "default" = .ok start' ∧ start <+: k ∧ start' <+: k := by
  intro i
  have hnames : ∀ name ∈ ["default", "author", "user", "b", "aa"], NameFits name := by
    unfold NameFits
    decide +kernel
  have hfits : ∀ l ⊆ ["default", "author", "user", "b", "aa"], ∀ name ∈ l, NameFits name :=
    fun _ hl name hname => hnames name (hl hname)
  obtain ⟨horder, hstarts⟩ := starts_and_order_exact
  obtain ⟨k, k', hk, hk', hbegins, hcompare⟩ := horder ["default", "b"] ["default", "aa"]
    (hfits _ (by decide)) (hfits _ (by decide))
  obtain ⟨p, start, start', hp, hstart, hstart', htable, hsource⟩ := hstarts i "default" "author"
    (hfits _ (by decide)) (hnames _ (by decide)) (hnames _ (by decide))
  refine ⟨hnames, ⟨k, k', hk, hk', ?_, hcompare.trans ?_⟩, p, start, start', hp, hstart, hstart', ?_, ?_⟩
  · rw [hbegins]
    decide
  · decide +kernel
  · exact htable.2 ⟨rfl, rfl⟩
  · exact hsource.2 rfl

end TableAccess.Key
