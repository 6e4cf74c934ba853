import TableAccess.Proofs.Registry.Coherence
import TableAccess.Proofs.Registry.Deeds
import TableAccess.Proofs.Store.Legible

/-!
# What a changed comment changes

A change of a comment writes the definition that is read under a permission again, with another comment, and
compiles nothing: the cache counts it in the version of the compiled permission. What is compiled again starts
to count from zero.

* `Registry.Recommented`: between two registries one comment was changed, and nothing else.
* `Registry.Sound.recommented`: **a change of a comment that succeeds changes nothing but the comment.**
* `ChangedSince`: how often a comment was changed since its permission was last compiled.
* `Event.counts`: **a version is the number of changes since the permission was last compiled**, whatever is
  run.
* `PermissionCache.counts_comments`: both, of every registry that a run leaves.
-/

namespace TableAccess

/-! ## One comment -/

/-- A change of a comment that succeeds leaves what it wrote, and counts. -/
theorem Operation.eq_of_setComment {r r' : Registry PermissionCache} {i : PermissionId}
    {comment : Option String} {o : Outcome} (h : setComment i comment r = (.ok o, r')) :
    ∃ st, commented i comment r.store = .ok ((), st) ∧ r' = ⟨st, r.cache.bump i⟩ ∧
      o = .ofReport i ((r.cache.bump i).inconsistencyOf i) := by
  obtain ⟨_, hwrite⟩ := (looks_requireTable i.source i.table).exists_of_bind h
  obtain ⟨⟨_, xs⟩, _, happly, hreport⟩ := bind_eq_ok.1 hwrite
  obtain ⟨st, c, hw, hc, rfl⟩ := apply_eq_ok.1 happly
  cases hc
  cases hreport
  exact ⟨st, hw, rfl, rfl⟩

/-- **Between two registries the comment of a permission was changed, and nothing else.** -/
structure Registry.Recommented (i : PermissionId) (comment : Option String)
    (r r' : Registry PermissionCache) : Prop where
  /-- The definition keeps its place in the order of insertion, its role and its clause. -/
  definitions : ∃ before d after, i ∉ (before ++ after).map (·.1) ∧
    r.store.definitions = .ok (before ++ (i, d) :: after) ∧
    r'.store.definitions = .ok (before ++ (i, { d with comment }) :: after)
  /-- It keeps its number. -/
  stored : ∃ d, r.store.get? i = .ok (some d) ∧
    r'.store.get? i = .ok (some { d with definition := { d.definition with comment } })
  others : ∀ j, j ≠ i → r'.store.get? j = r.store.get? j
  tracked : r'.store.tracked = r.store.tracked
  nextSeq : r'.store.nextSeq = r.store.nextSeq
  backends : r'.cache.backends = r.cache.backends
  inconsistent : r'.cache.inconsistent = r.cache.inconsistent
  /-- What is compiled stays, and one more change is counted. -/
  entry : r'.cache.get? i = (r.cache.get? i).map fun p => { p with version := p.version + 1 }
  entries : ∀ j, j ≠ i → r'.cache.get? j = r.cache.get? j

namespace PermissionCache

theorem inconsistent_bump (c : PermissionCache) (i : PermissionId) :
    (c.bump i).inconsistent = c.inconsistent := by
  unfold bump
  split <;> rfl

theorem get?_bump (c : PermissionCache) (i j : PermissionId) : (c.bump i).get? j =
    if j = i then (c.get? i).map fun p => { p with version := p.version + 1 } else c.get? j := by
  have hslot := congrArg Slot.entry (slot_bump c i j)
  split at hslot
  next hj => exact hslot.trans (if_pos hj).symm
  next hj => exact hslot.trans (if_neg hj).symm

end PermissionCache

/-- Another definition in the place of one that stands only there. -/
theorem Contents.replace_append {before after : Contents} {i : PermissionId} {d d' : StoredDefinition}
    (h : i ∉ (before ++ after).map (·.1)) :
    Contents.replace (before ++ (i, d) :: after) i d' = before ++ (i, d') :: after := by
  have hkeep : ∀ l : Contents, i ∉ l.map (·.1) → l.replace i d' = l := fun l hl =>
    (List.map_congr_left fun e he => if_neg fun hei => hl (List.mem_map.2 ⟨e, he, hei⟩)).trans
      (List.map_id _)
  rw [List.map_append, List.mem_append, not_or] at h
  have hmap : Contents.replace (before ++ (i, d) :: after) i d' =
      before.replace i d' ++ (i, d') :: after.replace i d' := by
    simp [Contents.replace]
  rw [hmap, hkeep before h.1, hkeep after h.2]

/-- **A change of a comment that succeeds changes nothing but the comment**, and reports the inconsistency
that the permission has. -/
theorem Registry.Sound.recommented {w : Registry Watched} {l : Contents} (h : w.Sound l) {i : PermissionId}
    {comment : Option String} {o : Outcome} {r' : Registry PermissionCache}
    (hset : Operation.setComment i comment (w.map Watched.cache) = (.ok o, r')) :
    o = ⟨i, (w.cache.cache.inconsistent.get? i).map fun f => ⟨i, f⟩⟩ ∧
      Recommented i comment (w.map Watched.cache) r' := by
  obtain ⟨st, hw, rfl, rfl⟩ := Operation.eq_of_setComment hset
  obtain ⟨d, hd, hl⟩ := Operation.commented_holds h.holds hw
  obtain ⟨_, k, hget, hk, -, rfl⟩ := Operation.commented_eq_ok.1 hw
  have hmem := (Contents.lookup_eq_some_iff h.holds.ids).1 hd
  -- what is written again can be read, since it could be read before
  have hreadable : ∀ e ∈ l.replace i { d with definition := { d.definition with comment } }, e.2.Readable :=
    Contents.forall_mem_replace ⟨(h.readable _ hmem).seq, (h.readable _ hmem).depth⟩ h.readable
  have hnew : (l.replace i { d with definition := { d.definition with comment } }).lookup i =
      some { d with definition := { d.definition with comment } } :=
    (Contents.lookup_eq_some_iff hl.ids).2
      (Contents.mem_replace.2 (.inl ⟨List.mem_map_of_mem (f := (·.1)) hmem, rfl⟩))
  refine ⟨?_, ?_, ⟨d, ?_, ?_⟩, fun j hj => ?_, rfl, rfl, PermissionCache.backends_bump _ _,
    PermissionCache.inconsistent_bump _ _, ?_, fun j hj => ?_⟩
  · rw [Outcome.ofReport_inconsistencyOf, PermissionCache.inconsistent_bump]
    rfl
  · obtain ⟨before, after, rfl⟩ := List.append_of_mem hmem
    have hids := h.holds.ids
    rw [List.map_append, List.map_cons, List.nodup_middle, List.nodup_cons, ← List.map_append] at hids
    rw [Contents.replace_append hids.1] at hl hreadable
    refine ⟨Contents.definitions before, d.definition, Contents.definitions after, ?_, ?_, ?_⟩
    · rw [List.map_append, Contents.map_fst_definitions, Contents.map_fst_definitions, ← List.map_append]
      exact hids.1
    · refine (h.holds.definitions_eq h.readable).trans ?_
      simp [Contents.definitions]
    · refine (hl.definitions_eq hreadable).trans ?_
      simp [Contents.definitions]
  · exact h.holds.get?_eq_ok.2 ⟨⟨k, hk⟩, fun d' hd' => h.readable _
      ((Contents.lookup_eq_some_iff h.holds.ids).1 hd'), hd.symm⟩
  · exact hl.get?_eq_ok.2 ⟨⟨k, hk⟩, fun d' hd' => hreadable _
      ((Contents.lookup_eq_some_iff hl.ids).1 hd'), hnew.symm⟩
  · exact (Store.get?_of_write hk rfl j).trans (if_neg hj)
  · exact (PermissionCache.get?_bump _ _ _).trans (if_pos rfl)
  · exact (PermissionCache.get?_bump _ _ _).trans (if_neg hj)

/-! ## Versions -/

/-- **The comment of a permission was changed `n` times since the permission was last compiled.** -/
def ChangedSince (i : PermissionId) (ds : List Deed) (n : Nat) : Prop :=
  ∃ before d after, ds = before ++ d :: after ∧ d.compiles i = true ∧
    (∀ e ∈ after, e.compiles i = false) ∧ after.countP (Deed.comments i) = n

namespace ChangedSince

variable {i : PermissionId} {ds : List Deed} {d : Deed} {n : Nat}

theorem of_compiles (h : d.compiles i = true) (ds : List Deed) : ChangedSince i (ds ++ [d]) 0 :=
  ⟨ds, d, [], rfl, h, List.forall_mem_nil _, rfl⟩

theorem concat (h : ChangedSince i ds n) (hd : d.compiles i = false) :
    ChangedSince i (ds ++ [d]) (n + if d.comments i then 1 else 0) := by
  obtain ⟨before, e, after, rfl, he, hafter, rfl⟩ := h
  refine ⟨before, e, after ++ [d], by simp, he, ?_, by simp [List.countP_append, List.countP_singleton]⟩
  rw [List.forall_mem_append, List.forall_mem_singleton]
  exact ⟨hafter, hd⟩

end ChangedSince

/-- What has just been compiled has counted nothing. -/
theorem Slot.version_ofResult {x : Except (Located RuleFault) CompiledPermission} {p : CachedPermission}
    (h : (ofResult x).entry = some p) : p.version = 0 := by
  cases x <;> cases h
  rfl

namespace PermissionCache

variable {c c' : PermissionCache} {i j : PermissionId} {p : CachedPermission} {ds : List Deed}

/-- A permission that is compiled again has counted nothing, and the others have counted what they had. -/
theorem version_refresh {d : Option Definition} (h : (c.refresh j d).get? i = some p) :
    if i = j then p.version = 0 else c.get? i = some p := by
  have hslot : ((c.refresh j d).slot i).entry = some p := h
  cases d with
  | none =>
    rw [refresh, slot_forget] at hslot
    split at hslot
    next => cases hslot
    next hi => rwa [if_neg hi]
  | some d =>
    rw [refresh, slot_record] at hslot
    split at hslot
    next hi => exact (if_pos hi).mpr (Slot.version_ofResult hslot)
    next hi => rwa [if_neg hi]

theorem version_foldl_record {l : List (PermissionId × Definition)}
    (hc : ∀ p, c.get? i = some p → p.version = 0) :
    ∀ p, (l.foldl (fun c e => c.record e.1 e.2) c).get? i = some p → p.version = 0 := by
  induction l generalizing c with
  | nil => exact hc
  | cons e l ih =>
    refine ih fun p hp => ?_
    have hversion := version_refresh (d := some e.2) hp
    split at hversion
    · exact hversion
    · exact hc p hversion

theorem version_refreshAll {l : List (PermissionId × Definition)} (h : (c.refreshAll l).get? i = some p) :
    p.version = 0 :=
  version_foldl_record (c := ofBackends c.backends) (fun _ hp => by cases hp) p h

/-- **The versions of the cache count the changes** among some deeds. -/
def Counts (c : PermissionCache) (ds : List Deed) : Prop :=
  ∀ i p, c.get? i = some p → ChangedSince i ds p.version

/-- **Rebuilding what a deed makes stale** keeps the versions counting. -/
theorem Counts.rebuild (h : c.Counts ds) {view : View} {invalidation : Invalidation}
    {xs : List Inconsistency} (hr : c.rebuild view invalidation = (.ok xs, c')) {d : Deed}
    (hd : d.invalidation? = some invalidation) : c'.Counts (ds ++ [d]) := by
  intro i p hp
  cases invalidation with
  | object j =>
    rw [PermissionCache.rebuild] at hr
    split at hr <;> cases hr
    have hversion := version_refresh hp
    by_cases hij : i = j
    · rw [if_pos hij] at hversion
      rw [hversion]
      exact .of_compiles (by simp [Deed.compiles, hd, hij]) ds
    · rw [if_neg hij] at hversion
      simpa [Deed.comments, hd] using
        (h i p hversion).concat (d := d) (by simp [Deed.compiles, hd, Ne.symm hij])
  | full =>
    rw [PermissionCache.rebuild] at hr
    split at hr <;> cases hr
    rw [version_refreshAll hp]
    exact .of_compiles (by simp [Deed.compiles, hd]) ds
  | comment j =>
    cases hr
    have hcompiles : d.compiles i = false := by simp [Deed.compiles, hd]
    rw [get?_bump] at hp
    split at hp
    next hij =>
      subst hij
      obtain ⟨q, hq, rfl⟩ := Option.map_eq_some_iff.1 hp
      simpa [Deed.comments, hd] using (h i q hq).concat hcompiles
    next hij => simpa [Deed.comments, hd, Ne.symm hij] using (h i p hp).concat hcompiles

end PermissionCache

/-- Every command that succeeds keeps the versions counting. -/
theorem PermissionCache.Counts.keep : Deed.Keep fun ds r => r.cache.Counts ds := by
  intro ds r c reply r' h hrun
  have hcache := (Command.done_of_run hrun).2
  split at hcache
  next hnone =>
    rw [hcache]
    intro i p hp
    simpa [Deed.comments, Deed.invalidation?, hnone] using
      (h i p hp).concat (d := .command c) (by simp [Deed.compiles, Deed.invalidation?, hnone])
  next invalidation hsome =>
    obtain ⟨xs, hr⟩ := hcache
    exact h.rebuild hr hsome

/-- **A version is the number of changes since the permission was last compiled**, after every run. -/
theorem Event.counts {r : Registry PermissionCache} {ds : List Deed} (h : r.cache.Counts ds)
    (es : List Event) :
    (es.foldl (Event.run PermissionCache.setBackend) r).cache.Counts (ds ++ deedsAll r es) :=
  deedsAll_keep PermissionCache.Counts.keep (fun _ _ _ _ h => h) (fun _ _ _ _ h hr => h.rebuild hr rfl) es
    ds r h

/-- **Changing a comment changes nothing but the comment.** Run an empty registry on any sources, through
command documents whose numbers read back and other schemas for its sources. A change of a comment that then
succeeds leaves the definition its role, its clause and its place, and everything else as it was; the version
of the permission goes up by one, if the permission is compiled, and what is reported is its inconsistency.
So the version of every compiled permission is the number of changes since it was last compiled, which has 64
bits as long as there are fewer than `2 ^ 64` of them. -/
theorem PermissionCache.counts_comments (backends : SortedMap String Schema) {es : List Event}
    (hes : ∀ doc, Event.command doc ∈ es → doc.NumbersReadBack) :
    let start : Registry PermissionCache := ⟨.empty, .ofBackends backends⟩
    let r := es.foldl (Event.run PermissionCache.setBackend) start
    (∀ i comment o r', Operation.setComment i comment r = (.ok o, r') →
      o = ⟨i, (r.cache.inconsistent.get? i).map fun f => ⟨i, f⟩⟩ ∧ r.Recommented i comment r') ∧
    ∀ i p, r.cache.get? i = some p → ChangedSince i (Event.deedsAll start es) p.version := by
  intro start r
  have hr : r = _ := (Event.foldl_watched es ⟨.empty, ⟨.ofBackends backends, true⟩⟩).symm
  obtain ⟨l, hl⟩ := (Registry.Sound.empty_registry backends).run hes
  have hstart : start.cache.Counts [] := fun i p hp => by cases hp
  refine ⟨fun i comment o r' hset => ?_, Event.counts hstart es⟩
  rw [hr] at hset ⊢
  exact hl.recommented hset

/-- A permission on authors is created and gets a comment, which is then taken away. -/
theorem PermissionCache.counts_comments_authors :
    let authors : Schema := (Catalog.ofTables [⟨"author", [⟨"id", .integer⟩], [], []⟩]).schema
    let backends : SortedMap String Schema := .ofList [("default", authors)]
    let create : Json := .obj [("args",
      .obj [("permission", .obj [("filter", .obj [("id", .obj [("_eq", .int 1)])])]),
        ("role", .str "user"), ("table", .str "author")]), ("type", .str "create_delete_permission")]
    let comment : Json := .obj [("args", .obj [("comment", .str "own rows"), ("permission", .str "delete"),
      ("role", .str "user"), ("table", .str "author")]), ("type", .str "set_permission_comment")]
    let es : List Event := [.command create, .command comment]
    let start : Registry PermissionCache := ⟨.empty, .ofBackends backends⟩
    let r := es.foldl (Event.run PermissionCache.setBackend) start
    let i : PermissionId := ⟨"default", "author", "user", .delete⟩
    (∀ doc, Event.command doc ∈ es → doc.NumbersReadBack) ∧
      (∃ o r', Operation.setComment i none r = (.ok o, r') ∧
        o = ⟨i, (r.cache.inconsistent.get? i).map fun f => ⟨i, f⟩⟩ ∧ r.Recommented i none r') ∧
      ∃ p, r.cache.get? i = some p ∧ p.version = 1 ∧ ChangedSince i (Event.deedsAll start es) p.version := by
  intro authors backends create comment es start r i
  have hes : ∀ doc, Event.command doc ∈ es → doc.NumbersReadBack := by
    intro doc hdoc
    obtain rfl | rfl : doc = create ∨ doc = comment := by simpa [es] using hdoc
    · intro n hn
      obtain rfl : n = .int 1 := List.mem_singleton.1 hn
      exact Number.readsBack_int (by decide)
    · exact fun n hn => absurd hn List.not_mem_nil
  have hcreate : Script.isList create = false := by decide +kernel
  have hcomment : Script.isList comment = false := by decide +kernel
  have hr : r = ((Script.single comment).run ((Script.single create).run start).2).2 := by
    show [Event.command create, .command comment].foldl _ start = _
    rw [List.foldl_cons, List.foldl_cons, List.foldl_nil, Event.run_single hcreate,
      Event.run_single hcomment]
  have hset : (Operation.setComment i none r).1.isOk = true := by
    rw [hr]
    decide +kernel
  have hversion : (r.cache.get? i).map (·.version) = some 1 := by
    rw [hr]
    decide +kernel
  obtain ⟨honly, hcounts⟩ := PermissionCache.counts_comments backends hes
  obtain ⟨p, hp, hone⟩ := Option.map_eq_some_iff.1 hversion
  obtain ⟨o, ho⟩ := exists_of_isOk hset
  rcases hchange : Operation.setComment i none r with ⟨x, r'⟩
  rw [hchange] at ho
  obtain rfl : x = .ok o := ho
  exact ⟨hes, ⟨o, r', rfl, honly i none o r' hchange⟩, p, hp, hone, hcounts i p hp⟩

end TableAccess
