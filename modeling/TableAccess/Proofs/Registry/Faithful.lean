import TableAccess.Proofs.Permission.Alike
import TableAccess.Proofs.Registry.Step

/-!
# The cache shows what can be read

Whatever numbers come in, the cache of a registry whose sources stay as they are shows what its store says:
the slot of a permission shows what a definition compiles to that is like the one read from the store, and
where nothing is stored the slot is empty. Only the definitions' numbers can differ, because a changed
comment writes a definition again and compiles nothing.

* `Registry.Faithful`: the invariant. `Faithful.command`, `Faithful.runCommand`: **what commands keep.**
* `Faithful.exists_of_compile`, `Faithful.exists_of_get?`: **a permission is in the cache exactly if what is
  stored of it compiles.**
-/

namespace TableAccess

/-- **The cache of the registry knows the sources `backends` and shows what is stored.** -/
structure Registry.Faithful (backends : SortedMap String Schema) (r : Registry PermissionCache) : Prop where
  sources : r.cache.backends = backends
  legible : r.store.Legible
  shown : ∀ i d, r.store.get? i = .ok (some d) → ∃ d' : Definition, d'.clause.Alike d.definition.clause ∧
    (r.cache.slot i).Shows (r.cache.compile i d')
  empty : ∀ i, (∀ d, r.store.get? i ≠ .ok (some d)) → r.cache.slot i = .empty

namespace PermissionCache

/-- Definitions with clauses that are alike compile alike. -/
theorem compile_alike {c : PermissionCache} {i : PermissionId} {d d' : Definition}
    (h : d.clause.Alike d'.clause) {p : CompiledPermission} (hp : c.compile i d = .ok p) :
    ∃ p', c.compile i d' = .ok p' ∧ p'.dependencies = p.dependencies ∧
      p'.descriptor.asInsert?.map (·.backendOnly) = d.clause.backendOnly? := by
  obtain ⟨σ, hσ, htable, hp⟩ := compile_eq_ok.1 hp
  obtain ⟨p', hp', hdependencies⟩ := Permission.compile_alike h hp
  refine ⟨p', compile_eq_ok.2 ⟨σ, hσ, htable, hp'⟩, hdependencies, ?_⟩
  rw [Permission.backendOnly?_of_compile hp', h.backendOnly?]

end PermissionCache

namespace Registry.Faithful

variable {backends : SortedMap String Schema} {r : Registry PermissionCache}

theorem empty_registry (backends : SortedMap String Schema) :
    Faithful backends ⟨.empty, .ofBackends backends⟩ where
  sources := rfl
  legible := .empty
  shown i d h := by
    obtain ⟨k, text, -, htext, -⟩ := Store.get?_eq_some_iff.1 h
    cases htext
  empty i _ := rfl

/-! ## Rebuilding -/

/-- **Compiling everything again makes the cache show any store that can be read.** -/
theorem rebuild_full {st : Store} (h : st.Legible) {c : PermissionCache}
    (hc : c.backends = backends) {xs : List Inconsistency} {c' : PermissionCache}
    (hr : c.rebuild st.view .full = (.ok xs, c')) : Faithful backends ⟨st, c'⟩ := by
  obtain ⟨l, hl, hids, hlookup⟩ := h.exists_contents
  have hview : st.view.definitions = .ok l.definitions := hl
  rw [PermissionCache.rebuild, hview] at hr
  obtain rfl : c.refreshAll l.definitions = c' := (Prod.ext_iff.1 hr).2
  have hslot := fun i => PermissionCache.slot_refreshAll (c := c) i (Contents.map_fst_definitions l ▸ hids)
  have hbackends := PermissionCache.backends_refreshAll (c := c) l.definitions
  refine ⟨hbackends.trans hc, h, fun i d hd => ⟨d.definition, .refl _, ?_⟩, fun i hd => ?_⟩
  · show (PermissionCache.slot _ i).Shows _
    rw [hslot, Contents.lookup_definitions, (hlookup i d).2 hd, PermissionCache.compile_congr i hbackends]
    exact Slot.shows_ofResult _
  · have hnone : l.lookup i = none := Option.eq_none_iff_forall_ne_some.2 fun d hlook =>
      hd d ((hlookup i d).1 hlook)
    show PermissionCache.slot _ i = _
    rw [hslot, Contents.lookup_definitions, hnone]
    rfl

/-- Compiling everything again makes no difference to that. -/
theorem rebuild (h : r.Faithful backends) :
    Faithful backends ⟨r.store, (r.cache.rebuild r.store.view .full).2⟩ := by
  obtain ⟨l, hl, -⟩ := h.legible.exists_contents
  have hview : r.store.view.definitions = .ok l.definitions := hl
  have hok : (r.cache.rebuild r.store.view .full).1 =
      .ok (r.cache.refreshAll l.definitions).inconsistencies := by
    rw [PermissionCache.rebuild, hview]
  exact rebuild_full h.legible h.sources (Prod.ext hok rfl)

/-- **A slot that shows what was written under its permission, beside slots that stay as they were**, keeps
the cache faithful. -/
theorem write (h : r.Faithful backends) {i : PermissionId} {d : StoredDefinition} (hd : Inscribed (i, d))
    {k : Key} (hk : Key.ofId i = .ok k) {st : Store}
    (hp : st.permissions = r.store.permissions.insert k d.toJson.text) {c : PermissionCache}
    (hc : c.backends = r.cache.backends)
    (hother : ∀ j, j ≠ i → c.slot j = r.cache.slot j)
    (hslot : ∃ d' : Definition, d'.clause.Alike d.definition.clause ∧ (c.slot i).Shows (c.compile i d')) :
    Faithful backends ⟨st, c⟩ := by
  have hget := Store.get?_of_write hk hp
  refine ⟨hc.trans h.sources, h.legible.write hd hk hp, fun j d' hj => ?_, fun j hj => ?_⟩
  · replace hj : st.get? j = .ok (some d') := hj
    by_cases hji : j = i
    · -- what is read of the definition is like what was written
      subst hji
      rw [hget, if_pos rfl, hd.decode] at hj
      obtain rfl := Option.some.inj (Except.ok.inj hj)
      obtain ⟨e, halike, hshows⟩ := hslot
      exact ⟨e, halike.trans (Clause.alike_mapFloats _ _).symm, hshows⟩
    · rw [hget, if_neg hji] at hj
      obtain ⟨e, halike, hshows⟩ := h.shown j d' hj
      refine ⟨e, halike, ?_⟩
      show (c.slot j).Shows (c.compile j _)
      rwa [hother j hji, PermissionCache.compile_congr j hc]
  · have hji : j ≠ i := by
      rintro rfl
      exact hj _ ((hget j).trans (by rw [if_pos rfl, hd.decode]; rfl))
    show c.slot j = _
    rw [hother j hji]
    refine h.empty j fun d' hj' => hj d' ?_
    exact (hget j).trans (by rw [if_neg hji, hj'])

/-- A definition that is written and compiled as it is read back. -/
theorem record (h : r.Faithful backends) {i : PermissionId} {d : StoredDefinition} (hd : Inscribed (i, d))
    {k : Key} (hk : Key.ofId i = .ok k) {st : Store}
    (hp : st.permissions = r.store.permissions.insert k d.toJson.text) :
    Faithful backends ⟨st, r.cache.record i (d.mapFloats Binary64.reread).definition⟩ := by
  have hbackends := PermissionCache.backends_record r.cache i (d.mapFloats Binary64.reread).definition
  refine h.write hd hk hp hbackends (fun j hj => ?_)
    ⟨(d.mapFloats Binary64.reread).definition, Clause.alike_mapFloats _ _, ?_⟩
  · rw [PermissionCache.slot_record, if_neg hj]
  · rw [PermissionCache.slot_record, if_pos rfl, PermissionCache.compile_congr i hbackends]
    exact Slot.shows_ofResult _

/-- A comment that is changed, which needs no compiling. -/
theorem bump (h : r.Faithful backends) {i : PermissionId} {d : StoredDefinition}
    (hd : r.store.get? i = .ok (some d)) (comment : Option String) {k : Key} (hk : Key.ofId i = .ok k)
    {st : Store} (hp : st.permissions = r.store.permissions.insert k
      { d with definition := { d.definition with comment } }.toJson.text) :
    Faithful backends ⟨st, r.cache.bump i⟩ := by
  have hbackends := PermissionCache.backends_bump r.cache i
  obtain ⟨e, halike, hshows⟩ := h.shown i d hd
  refine h.write ((h.legible.inscribed hd).setComment comment) hk hp hbackends (fun j hj => ?_)
    ⟨e, halike, ?_⟩
  · rw [PermissionCache.slot_bump, if_neg hj]
  · -- the slot counts the change, and shows what it showed
    rw [PermissionCache.slot_bump, if_pos rfl, PermissionCache.compile_congr i hbackends]
    exact Slot.shows_bump hshows

/-! ## Commands -/

/-- **A command keeps the cache faithful**, whether it succeeds or fails. -/
theorem command (h : r.Faithful backends) {c : Command} (hc : c.Free Number.IsSound) :
    (c.run r).2.Faithful backends := by
  have hstep := c.step hc r
  generalize (c.run r).2 = r' at hstep ⊢
  cases hstep with
  | same => exact h
  | created _ hd hk hp _ _ => exact h.record hd hk hp
  | commented comment hd hk hp _ => exact h.bump hd comment hk hp
  | removed hs _ hrebuild => exact rebuild_full (h.legible.of_subset hs) h.sources hrebuild
  | tracked _ => exact ⟨h.sources, h.legible, h.shown, h.empty⟩

/-- **A command document keeps the cache faithful**, if its numbers are such as a text can stand for. -/
theorem runCommand (h : r.Faithful backends) {doc : Json} (hdoc : doc.AllNumbers Number.IsSound) :
    (runCommand doc r).2.Faithful backends :=
  runCommand_keeps (fun _ _ hc hr => hr.command hc) hdoc h

/-! ## What the cache holds -/

/-- **What is stored and compiles is in the cache**, compiled from a clause like the stored one. -/
theorem exists_of_compile (h : r.Faithful backends) {i : PermissionId} {d : StoredDefinition}
    (hd : r.store.get? i = .ok (some d)) {p : CompiledPermission}
    (hp : r.cache.compile i d.definition = .ok p) :
    ∃ q, r.cache.get? i = some q ∧ q.compiled.dependencies = p.dependencies ∧
      q.compiled.descriptor.asInsert?.map (·.backendOnly) = d.definition.clause.backendOnly? := by
  obtain ⟨e, halike, hshows⟩ := h.shown i d hd
  obtain ⟨p', hp', hdependencies, hbackend⟩ := PermissionCache.compile_alike halike.symm hp
  rw [hp'] at hshows
  obtain ⟨q, hq, rfl⟩ := Option.map_eq_some_iff.1 hshows.1
  exact ⟨q, hq, hdependencies, hbackend⟩

/-- **What is in the cache is stored and compiles.** -/
theorem exists_of_get? (h : r.Faithful backends) {i : PermissionId} {q : CachedPermission}
    (hq : r.cache.get? i = some q) :
    ∃ d p, r.store.get? i = .ok (some d) ∧ r.cache.compile i d.definition = .ok p := by
  by_cases hstored : ∃ d, r.store.get? i = .ok (some d)
  · obtain ⟨d, hd⟩ := hstored
    obtain ⟨e, halike, hshows⟩ := h.shown i d hd
    cases hc : r.cache.compile i e with
    | ok p =>
      obtain ⟨p', hp', -⟩ := PermissionCache.compile_alike halike hc
      exact ⟨d, p', hd, hp'⟩
    | error f =>
      rw [hc] at hshows
      cases hshows.1.symm.trans hq
  · have hempty := congrArg Slot.entry (h.empty i fun d hd => hstored ⟨d, hd⟩)
    cases hempty.symm.trans hq

end Registry.Faithful

end TableAccess
