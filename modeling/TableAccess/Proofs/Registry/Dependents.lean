import Mathlib.Data.List.Destutter
import Mathlib.Data.Prod.Lex
import Mathlib.Data.String.Basic
import TableAccess.Proofs.Registry.Creation

/-!
# What depends on something is told by what is stored

The dependents of something are gathered from the compiled permissions in the cache, sorted, and told once
each. While the sources stay as they are the cache shows what is stored, so the dependents of something are
the permissions that are stored, compile, and mention it, and neither the order in which they were created
nor that in which the cache is gone through makes a difference.

* `SortedSet.destutter_mergeSort`: sorting a list and leaving out repetitions gives the set of the list.
* `Registry.Housed`: the cache shows what is stored, and the tables of all that is stored exist.
  `Housed.run`: **what command documents keep.**
* `PermissionCache.dependents_exact`: **the dependents of something are exact and in order**, after any
  command documents.
-/

namespace TableAccess

/-! ## Sorting and leaving out repetitions -/

namespace SortedSet

variable {α : Type} [Ord α] [Std.TransOrd α] [Std.LawfulEqOrd α] [DecidableEq α]

omit [Ord α] [Std.TransOrd α] [Std.LawfulEqOrd α] in
theorem mem_destutter' {a b : α} {l : List α} : b ∈ l.destutter' (· ≠ ·) a ↔ b = a ∨ b ∈ l := by
  induction l generalizing a with
  | nil => simp
  | cons c l ih =>
    by_cases h : a = c
    · subst h
      rw [List.destutter'_cons_neg _ (not_not.2 rfl), ih, List.mem_cons, or_self_left]
    · rw [List.destutter'_cons_pos _ h, List.mem_cons, ih, List.mem_cons]

/-- Without repetitions a list in order increases at every place. -/
theorem pairwise_destutter' {a : α} {l : List α}
    (h : (a :: l).Pairwise fun a b => (compare a b).isLE = true) :
    (l.destutter' (· ≠ ·) a).Pairwise fun a b => compare a b = .lt := by
  induction l generalizing a with
  | nil => simp
  | cons c l ih =>
    obtain ⟨ha, hl⟩ := List.pairwise_cons.1 h
    by_cases hac : a = c
    · subst hac
      rw [List.destutter'_cons_neg _ (not_not.2 rfl)]
      exact ih hl
    · rw [List.destutter'_cons_pos _ hac]
      have hlt : compare a c = .lt := by
        have hle := ha c List.mem_cons_self
        cases hc : compare a c with
        | lt => rfl
        | eq => exact absurd (Std.LawfulEqCmp.eq_of_compare hc) hac
        | gt => rw [hc] at hle; cases hle
      refine List.pairwise_cons.2 ⟨fun b hb => ?_, ih hl⟩
      rcases mem_destutter'.1 hb with rfl | hb
      · exact hlt
      · exact Std.TransCmp.lt_of_lt_of_isLE hlt ((List.pairwise_cons.1 hl).1 b hb)

/-- **Sorting a list and leaving out repetitions** gives the elements of its set. -/
theorem destutter_mergeSort (l : List α) :
    (l.mergeSort fun a b => (compare a b).isLE).destutter (· ≠ ·) = (ofList l).toList := by
  have hsorted : (l.mergeSort fun a b => (compare a b).isLE).Pairwise
      fun a b => (compare a b).isLE = true := by
    refine List.pairwise_mergeSort (fun _ _ _ => Std.TransCmp.isLE_trans) (fun a b => ?_) l
    have hswap : compare b a = (compare a b).swap := Std.OrientedCmp.eq_swap
    rw [hswap]
    cases compare a b <;> rfl
  have hmem := fun a => (List.mergeSort_perm l fun a b => (compare a b).isLE).mem_iff (a := a)
  generalize l.mergeSort (fun a b => (compare a b).isLE) = sorted at hsorted hmem
  have hordered : (sorted.destutter (· ≠ ·)).Pairwise fun a b => compare a b = .lt := by
    cases sorted with
    | nil => exact .nil
    | cons a sorted => exact pairwise_destutter' hsorted
  refine congrArg toList (ext_mem (s := ⟨_, hordered⟩) fun a => ?_)
  rw [mem_ofList, ← hmem]
  cases sorted with
  | nil => rfl
  | cons b sorted => exact mem_destutter'.trans List.mem_cons.symm

end SortedSet

/-! ## The order of dependents -/

theorem Reason.rank_injective {a b : Reason} (h : a.rank = b.rank) : a = b := by
  cases a <;> cases b <;> first | rfl | cases h

namespace Dependent

/-- What dependents are ordered by: source, table, role, kind and reason. -/
def sortKey (d : Dependent) : String ×ₗ String ×ₗ String ×ₗ ℕ ×ₗ ℕ :=
  toLex (d.id.source, toLex (d.id.table, toLex (d.id.role, toLex (d.id.kind.rank, d.reason.rank))))

instance : Std.LawfulEqOrd Dependent where
  compare_self := Std.ReflCmp.compare_self
  eq_of_compare {a b} h := by
    obtain ⟨hid, hreason⟩ := Ordering.then_eq_eq.1 h
    obtain ⟨i, reason⟩ := a
    obtain ⟨j, reason'⟩ := b
    obtain rfl : i = j := PermissionId.compare_eq_iff.1 hid
    obtain rfl : reason = reason' := Reason.rank_injective (Nat.compare_eq_eq.1 hreason)
    rfl

/-- **Dependents are ordered by source, table, role, kind and reason**, the first of these deciding. -/
theorem compare_eq_lt {a b : Dependent} : compare a b = .lt ↔ a.sortKey < b.sortKey := by
  have hid : compare a.id b.id = (compare a.id.source b.id.source).then
      ((compare a.id.table b.id.table).then ((compare a.id.role b.id.role).then
        (compare a.id.kind.rank b.id.kind.rank))) := by
    show (compare [a.id.source, a.id.table, a.id.role] [b.id.source, b.id.table, b.id.role]).then _ = _
    simp [Ordering.then_assoc, compareOn]
  show (compare a.id b.id).then (compare a.reason.rank b.reason.rank) = .lt ↔ _
  simp only [hid, sortKey, Ordering.then_eq_lt, Ordering.then_eq_eq, compare_lt_iff_lt, compare_eq_iff_eq,
    Prod.Lex.toLex_lt_toLex]
  tauto

/-- What is gathered of cached permissions, as they come: one dependent for each mention. -/
def gather (source table : String) (target : Target) (entries : List (PermissionId × CachedPermission)) :
    List Dependent :=
  entries.flatMap fun e =>
    (e.2.compiled.dependencies.filter fun d =>
      d.source == source && d.table == table && d.target == target).map fun d => ⟨e.1, d.reason⟩

variable {source table : String} {target : Target} {entries : List (PermissionId × CachedPermission)}

theorem mem_gather {d : Dependent} : d ∈ gather source table target entries ↔
    ∃ q, (d.id, q) ∈ entries ∧ ⟨source, table, target, d.reason⟩ ∈ q.compiled.dependencies := by
  simp only [gather, List.mem_flatMap, List.mem_map, List.mem_filter, Bool.and_eq_true, beq_iff_eq]
  constructor
  · rintro ⟨⟨i, q⟩, he, x, ⟨hx, ⟨rfl, rfl⟩, rfl⟩, rfl⟩
    exact ⟨q, he, hx⟩
  · rintro ⟨q, he, hx⟩
    exact ⟨(d.id, q), he, _, ⟨hx, ⟨rfl, rfl⟩, rfl⟩, rfl⟩

end Dependent

namespace PermissionCache

variable {c : PermissionCache} {source table : String} {target : Target}

/-- **What depends on something mentions it**, where its compiled permission is in the cache. -/
theorem mem_dependents {d : Dependent} : d ∈ c.dependents source table target ↔
    ∃ q, c.get? d.id = some q ∧ ⟨source, table, target, d.reason⟩ ∈ q.compiled.dependencies := by
  show d ∈ (SortedSet.ofList (Dependent.gather source table target c.entries.toList)).toList ↔ _
  simp only [SortedSet.mem_ofList, Dependent.mem_gather, SortedMap.mem_iff_get?, get?]

/-- **In whatever order the cache is gone through**, sorting what is gathered and leaving out repetitions
gives the same. -/
theorem dependents_of_perm {entries : List (PermissionId × CachedPermission)}
    (h : entries.Perm c.entries.toList) :
    ((Dependent.gather source table target entries).mergeSort fun a b => (compare a b).isLE).destutter
      (· ≠ ·) = c.dependents source table target := by
  rw [SortedSet.destutter_mergeSort]
  refine congrArg SortedSet.toList (SortedSet.ofList_congr fun d => ?_)
  exact (h.flatMap_right _).mem_iff

end PermissionCache

/-! ## Tables of what is stored -/

/-- **What is stored after a command** was stored before, or its table exists. -/
theorem Command.has_of_run {c : Command} (hc : c.Free Number.IsSound) {r : Registry PermissionCache}
    {i : PermissionId} (h : (c.run r).2.store.Has i) :
    r.store.Has i ∨ r.HasTable i.source i.table := by
  have hstep := c.step hc r
  generalize (c.run r).2 = r' at hstep h
  cases hstep with
  | same => exact .inl h
  | created htable _ hk hp _ _ =>
    rcases h.of_write hk hp with rfl | h
    · exact .inr htable
    · exact .inl h
  | commented _ hd hk hp _ =>
    rcases h.of_write hk hp with rfl | h
    · -- the comment that was changed is that of a stored definition
      obtain ⟨k', text, hk', htext, -⟩ := Store.get?_eq_some_iff.1 hd
      exact .inl ((Store.has_iff hk').2 ⟨text, SortedMap.mem_iff_get?.2 htext⟩)
    · exact .inl h
  | removed hs _ _ => exact .inl (h.of_subset hs)
  | tracked _ => exact .inl (h.of_subset (List.Subset.refl _))

/-- **The cache shows what is stored, and the tables of all that is stored exist.** -/
structure Registry.Housed (backends : SortedMap String Schema) (r : Registry PermissionCache) : Prop
    extends r.Faithful backends where
  tables : ∀ i, r.store.Has i → r.HasTable i.source i.table

namespace Registry

/-- The registry after command documents, run one after another. -/
def after {γ : Type} [SchemaCache γ] (r : Registry γ) (docs : List Json) : Registry γ :=
  docs.foldl (fun r doc => (runCommand doc r).2) r

namespace Housed

variable {backends : SortedMap String Schema} {r : Registry PermissionCache}

theorem empty_registry (backends : SortedMap String Schema) :
    Housed backends ⟨.empty, .ofBackends backends⟩ :=
  ⟨.empty_registry backends, fun _ h => absurd h Store.not_has_empty⟩

/-- A command keeps the tables of what is stored, since no source gets another schema. -/
theorem command (h : r.Housed backends) {c : Command} (hc : c.Free Number.IsSound) :
    (c.run r).2.Housed backends := by
  have hfaithful := h.toFaithful.command hc
  refine ⟨hfaithful, fun i hi => ?_⟩
  unfold HasTable
  rw [hfaithful.sources, ← h.sources]
  exact (Command.has_of_run hc hi).elim (h.tables i) id

/-- **Command documents keep the cache showing what is stored, on tables that exist.** -/
theorem run (h : r.Housed backends) {docs : List Json}
    (hdocs : ∀ doc ∈ docs, doc.AllNumbers Number.IsSound) : (r.after docs).Housed backends := by
  induction docs generalizing r with
  | nil => exact h
  | cons doc docs ih =>
    obtain ⟨hdoc, hdocs⟩ := List.forall_mem_cons.1 hdocs
    exact ih (runCommand_keeps (fun _ _ hc hr => hr.command hc) hdoc h) hdocs

/-- **What depends on something is stored, compiles, and mentions it**, and all such depends on it. -/
theorem mem_dependents (h : r.Housed backends) {ds : List (PermissionId × Definition)}
    (hds : r.store.definitions = .ok ds) {source table : String} {target : Target} {d : Dependent} :
    d ∈ r.cache.dependents source table target ↔ ∃ definition σ p, (d.id, definition) ∈ ds ∧
      backends.get? d.id.source = some σ ∧
      Permission.compile σ d.id.source d.id.table definition.clause = .ok p ∧
      ⟨source, table, target, d.reason⟩ ∈ p.dependencies := by
  rw [PermissionCache.mem_dependents]
  constructor
  · rintro ⟨q, hq, hmem⟩
    obtain ⟨⟨seq, definition⟩, p, hd, hp⟩ := h.exists_of_get? hq
    obtain ⟨q', hq', hdependencies, -⟩ := h.exists_of_compile hd hp
    obtain rfl := Option.some.inj (hq.symm.trans hq')
    obtain ⟨σ, hσ, -, hcompile⟩ := PermissionCache.compile_eq_ok.1 hp
    exact ⟨definition, σ, p, (h.legible.mem_definitions hds).2 ⟨seq, hd⟩, h.sources ▸ hσ, hcompile,
      hdependencies ▸ hmem⟩
  · rintro ⟨definition, σ, p, hd, hσ, hcompile, hmem⟩
    obtain ⟨seq, hd⟩ := (h.legible.mem_definitions hds).1 hd
    -- the table exists since something is stored on it
    obtain ⟨σ', hσ', htable⟩ := h.tables d.id (h.legible.has_iff_get?.2 ⟨_, hd⟩)
    rw [h.sources] at hσ'
    obtain rfl := Option.some.inj (hσ.symm.trans hσ')
    have hp : r.cache.compile d.id definition = .ok p :=
      PermissionCache.compile_eq_ok.2 ⟨σ, h.sources ▸ hσ, htable, hcompile⟩
    obtain ⟨q, hq, hdependencies, -⟩ := h.exists_of_compile hd hp
    exact ⟨q, hq, hdependencies ▸ hmem⟩

end Housed

end Registry

/-- **The dependents of something are exact and in order.** Run command documents on an empty store with any
sources, and ask what depends on something of a table. The answer has a permission with a reason exactly if a
definition of it is stored, its clause compiles against the schema of its source, and what it depends on is
this for that reason. The answer increases by source, table, role, kind and reason. It is the same in whatever
order the cache is gone through, and after any other documents that leave the same definitions stored in
whatever order. -/
theorem PermissionCache.dependents_exact (backends : SortedMap String Schema) {docs : List Json}
    (hdocs : ∀ doc ∈ docs, doc.AllNumbers Number.IsSound) (source table : String) (target : Target) :
    let start : Registry PermissionCache := ⟨.empty, .ofBackends backends⟩
    let r := start.after docs
    let found := r.cache.dependents source table target
    ∃ ds, r.store.definitions = .ok ds ∧
      (∀ i reason, ⟨i, reason⟩ ∈ found ↔ ∃ d σ p, (i, d) ∈ ds ∧ backends.get? i.source = some σ ∧
        Permission.compile σ i.source i.table d.clause = .ok p ∧
        ⟨source, table, target, reason⟩ ∈ p.dependencies) ∧
      (found.Pairwise fun a b => a.sortKey < b.sortKey) ∧
      (∀ entries : List (PermissionId × CachedPermission), entries.Perm r.cache.entries.toList →
        ((Dependent.gather source table target entries).mergeSort
          fun a b => (compare a b).isLE).destutter (· ≠ ·) = found) ∧
      ∀ docs' : List Json, (∀ doc ∈ docs', doc.AllNumbers Number.IsSound) →
        ∀ ds', (start.after docs').store.definitions = .ok ds' → ds'.Perm ds →
          (start.after docs').cache.dependents source table target = found := by
  intro start r found
  have hhoused := fun {docs : List Json} (hdocs : ∀ doc ∈ docs, doc.AllNumbers Number.IsSound) =>
    (Registry.Housed.empty_registry backends).run hdocs
  obtain ⟨l, hl, -⟩ := (hhoused hdocs).legible.exists_contents
  refine ⟨l.definitions, hl, fun i reason => (hhoused hdocs).mem_dependents hl, ?_,
    fun entries => dependents_of_perm, fun docs' hdocs' ds' hds' hperm => ?_⟩
  · exact (SortedSet.ordered _).imp Dependent.compare_eq_lt.1
  · refine congrArg SortedSet.toList (SortedSet.ext_mem fun d => ?_)
    refine ((hhoused hdocs').mem_dependents hds').trans (Iff.trans ?_ ((hhoused hdocs).mem_dependents hl).symm)
    simp only [hperm.mem_iff]

/-- Two roles may delete some authors, and both permissions depend on the column that the authors are told
by. -/
theorem PermissionCache.dependents_exact_authors :
    let authors : Schema := (Catalog.ofTables [⟨"author", [⟨"id", .integer⟩], [], []⟩]).schema
    let backends : SortedMap String Schema := .ofList [("default", authors)]
    let create : String → Json := fun role => .obj [("args",
      .obj [("permission", .obj [("filter", .obj [("id", .obj [("_eq", .int 1)])])]),
        ("role", .str role), ("table", .str "author")]), ("type", .str "create_delete_permission")]
    let docs : List Json := [create "user", create "editor"]
    let r : Registry PermissionCache := Registry.after ⟨.empty, .ofBackends backends⟩ docs
    let i : String → PermissionId := fun role => ⟨"default", "author", role, .delete⟩
    (∀ doc ∈ docs, doc.AllNumbers Number.IsSound) ∧
      r.cache.dependents "default" "author" (.column "id") =
        [⟨i "editor", .typeDerived⟩, ⟨i "user", .typeDerived⟩] ∧
      ∃ ds, r.store.definitions = .ok ds ∧ ∃ d σ p, (i "user", d) ∈ ds ∧
        backends.get? "default" = some σ ∧ Permission.compile σ "default" "author" d.clause = .ok p ∧
        ⟨"default", "author", .column "id", .typeDerived⟩ ∈ p.dependencies := by
  intro authors backends create docs r i
  -- named, the registry would be run wherever it is compared
  subst r
  have hdocs : ∀ doc ∈ docs, doc.AllNumbers Number.IsSound := by
    intro doc hdoc n hn
    obtain rfl | rfl : doc = create "user" ∨ doc = create "editor" := by simpa [docs] using hdoc
    all_goals
      obtain rfl : n = .int 1 := List.mem_singleton.1 hn
      exact (by decide : Number.isInteger 1 = true)
  have hfound : (Registry.after ⟨.empty, ofBackends backends⟩ docs).cache.dependents "default" "author"
      (.column "id") = [⟨i "editor", .typeDerived⟩, ⟨i "user", .typeDerived⟩] := by
    decide +kernel
  obtain ⟨ds, hds, hmem, -⟩ := dependents_exact backends hdocs "default" "author" (.column "id")
  have hlast : ⟨i "user", .typeDerived⟩ ∈
      (Registry.after ⟨.empty, ofBackends backends⟩ docs).cache.dependents "default" "author"
        (.column "id") := by
    rw [hfound]
    exact List.mem_cons_of_mem _ List.mem_cons_self
  exact ⟨hdocs, hfound, ds, hds, (hmem (i "user") .typeDerived).1 hlast⟩

end TableAccess
