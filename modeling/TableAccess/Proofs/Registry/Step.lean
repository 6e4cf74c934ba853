import TableAccess.Proofs.Cache.Rebuild
import TableAccess.Proofs.Command.Leaves
import TableAccess.Proofs.Registry.Failure
import TableAccess.Proofs.Store.Legible

/-!
# What a command leaves

Whatever a command is, and whether it succeeds or not, it leaves one of five things: the registry as it was,
one more definition compiled as it is read, a definition with another comment, fewer definitions all of which
are compiled again, or other tables tracked. What commands keep is shown of these five.

* `Registry.Step`: the five.
* `Command.step`: **a command leaves one of them**, if its numbers are such as a text can stand for.
-/

namespace TableAccess

/-- **What a command leaves of a registry.** -/
inductive Registry.Step (r : Registry PermissionCache) : Registry PermissionCache → Prop where
  | same : Step r r
  /-- A definition on a table that exists, with the next number. -/
  | created {i : PermissionId} {d : StoredDefinition} {k : Key} {st : Store}
      (table : ∃ σ, r.cache.backends.get? i.source = some σ ∧ σ.tableExists i.table = true)
      (inscribed : Inscribed (i, d)) (key : Key.ofId i = .ok k)
      (permissions : st.permissions = r.store.permissions.insert k d.toJson.text)
      (seq : d.seq = r.store.nextSeq) (next : st.nextSeq = r.store.nextSeq + 1) :
      Step r ⟨st, r.cache.record i (d.mapFloats Binary64.reread).definition⟩
  /-- A stored definition with another comment, under the number that it has. -/
  | commented {i : PermissionId} {d : StoredDefinition} (comment : Option String) {k : Key} {st : Store}
      (stored : r.store.get? i = .ok (some d)) (key : Key.ofId i = .ok k)
      (permissions : st.permissions = r.store.permissions.insert k
        { d with definition := { d.definition with comment } }.toJson.text)
      (next : st.nextSeq = r.store.nextSeq) : Step r ⟨st, r.cache.bump i⟩
  /-- Some of the definitions, all of them compiled again. -/
  | removed {st : Store} {xs : List Inconsistency} {c : PermissionCache}
      (permissions : st.permissions.toList ⊆ r.store.permissions.toList)
      (next : st.nextSeq = r.store.nextSeq) (rebuilt : r.cache.rebuild st.view .full = (.ok xs, c)) :
      Step r ⟨st, c⟩
  | tracked (tables : SortedSet Key) : Step r ⟨{ r.store with tracked := tables }, r.cache⟩

theorem Registry.Step.of_eq {r r' : Registry PermissionCache} (h : r' = r) : r.Step r' := by
  rw [h]
  exact .same

/-- Rebuilding one permission compiles what is read of it. -/
theorem PermissionCache.record_of_rebuild {c c' : PermissionCache} {st : Store} {i : PermissionId}
    {x : Except Failure StoredDefinition} (hx : st.get? i = x.map some) {xs : List Inconsistency}
    (h : c.rebuild st.view (.object i) = (.ok xs, c')) :
    ∃ d, x = .ok d ∧ c' = c.record i d.definition := by
  rw [rebuild, Store.view_definition?, hx] at h
  cases x with
  | error f => cases h
  | ok d => exact ⟨d, rfl, (Prod.ext_iff.1 h).2.symm⟩

/-! ## Numbers -/

/-- Removing definitions uses no number. -/
theorem Transaction.nextSeq_of_removeAll {is : List PermissionId} {st st' : Store} {u : Unit}
    (h : removeAll is st = .ok (u, st')) : st'.nextSeq = st.nextSeq := by
  induction is generalizing st with
  | nil =>
    obtain ⟨-, rfl⟩ := pure_eq_ok.1 h
    rfl
  | cons i is ih =>
    obtain ⟨_, st₁, hremove, hrest⟩ := bind_eq_ok.1 h
    obtain ⟨k, -, -, rfl⟩ := remove_eq_ok.1 hremove
    exact (ih hrest :)

namespace Operation

theorem nextSeq_of_dropped {i : PermissionId} {st st' : Store} {u : Unit}
    (h : dropped i st = .ok (u, st')) : st'.nextSeq = st.nextSeq := by
  obtain ⟨k, -, -, rfl⟩ := dropped_eq_ok.1 h
  rfl

theorem nextSeq_of_untracked {source table : String} {st st' : Store} {is : List PermissionId}
    (h : untracked source table st = .ok (is, st')) : st'.nextSeq = st.nextSeq := by
  obtain ⟨k, found, st₁, -, -, -, hremove, rfl⟩ := Transaction.untrack_eq_ok.1 (untracked_eq_ok.1 h).2
  exact (Transaction.nextSeq_of_removeAll hremove :)

/-! ## Operations -/

/-- **Creating a permission leaves an inscribed definition**, compiled as it is read, or nothing. -/
theorem create_step (source table role : String) {clause : Clause} (hc : clause.Free Number.IsSound)
    (comment : Option String) (r : Registry PermissionCache) :
    r.Step (create source table role clause comment r).2 := by
  rcases create_after source table role clause comment r with hr | ⟨hσ, hr⟩
  · exact .of_eq hr
  rcases apply_cases (.object ⟨source, table, role, clause.kind⟩)
    (created _ ⟨role, comment, clause⟩) nofun r with hr' | ⟨_, st, xs, c, hw, hrebuild, hr'⟩
  · exact .of_eq (hr.trans hr')
  obtain ⟨k, hk, -, -, rfl⟩ := created_eq_ok.1 hw
  -- what was written is read to be compiled, so it can be read
  obtain ⟨d, hdecode, rfl⟩ := PermissionCache.record_of_rebuild
    ((Store.get?_of_write hk rfl _).trans (if_pos rfl)) hrebuild
  obtain ⟨hreadable, rfl⟩ := (StoredDefinition.decode_text_eq_ok_of_isSound hc).1 hdecode
  rw [hr, hr']
  exact .created hσ ⟨⟨rfl, rfl⟩, hc, hreadable⟩ hk rfl rfl rfl

/-- Changing a comment leaves what was read, with the other comment, or nothing. -/
theorem setComment_step (i : PermissionId) (comment : Option String) (r : Registry PermissionCache) :
    r.Step (setComment i comment r).2 := by
  rcases setComment_after i comment r with hr | hr
  · exact .of_eq hr
  rcases apply_cases (.comment i) (commented i comment) nofun r with hr' | ⟨_, st, xs, c, hw, hrebuild, hr'⟩
  · exact .of_eq (hr.trans hr')
  obtain ⟨d, k, hd, hk, -, rfl⟩ := commented_eq_ok.1 hw
  obtain rfl : r.cache.bump i = c := (Prod.ext_iff.1 hrebuild).2
  rw [hr, hr']
  exact .commented comment hd hk rfl rfl

/-- What only removes definitions and uses no number leaves the others, compiled again, or nothing. -/
theorem step_of_apply_full {α : Type} {write : Transaction α}
    (hw : ∀ st a st', write st = .ok (a, st') →
      st'.permissions.toList ⊆ st.permissions.toList ∧ st'.nextSeq = st.nextSeq)
    (r : Registry PermissionCache) : r.Step (apply .full write r).2 := by
  rcases apply_cases .full write (fun _ st a st' h => (hw st a st' h).1) r with
    hr | ⟨a, st, xs, c, hwrite, hrebuild, hr⟩
  · exact .of_eq hr
  · rw [hr]
    exact .removed (hw _ _ _ hwrite).1 (hw _ _ _ hwrite).2 hrebuild

theorem drop_step (i : PermissionId) (r : Registry PermissionCache) : r.Step (drop i r).2 := by
  rcases drop_after i r with hr | hr
  · exact .of_eq hr
  · rw [hr]
    exact step_of_apply_full (fun _ _ _ hw => ⟨dropped_subset hw, nextSeq_of_dropped hw⟩) r

theorem untrack_step (source table : String) (r : Registry PermissionCache) :
    r.Step (untrack source table r).2 := by
  rcases untrack_after source table r with hr | hr
  · exact .of_eq hr
  · rw [hr]
    exact step_of_apply_full (fun _ _ _ hw => ⟨untracked_subset hw, nextSeq_of_untracked hw⟩) r

theorem track_step (source table : String) (r : Registry PermissionCache) :
    r.Step (track source table r).2 := by
  obtain ⟨tracked, hr⟩ := track_after source table r
  exact hr ▸ .tracked tracked

end Operation

/-- **A command leaves one of these**, whether it succeeds or fails. -/
theorem Command.step {c : Command} (hc : c.Free Number.IsSound) (r : Registry PermissionCache) :
    r.Step (c.run r).2 := by
  cases c with
  | create _ source table role clause comment =>
    rw [run, Operation.bind_after fun _ _ => rfl]
    exact Operation.create_step source table role hc comment r
  | drop i =>
    rw [run, Operation.bind_after fun _ _ => rfl]
    exact Operation.drop_step i r
  | setComment i comment =>
    rw [run, Operation.bind_after fun _ _ => rfl]
    exact Operation.setComment_step i comment r
  | track source table =>
    rw [run, Operation.bind_after fun _ _ => rfl]
    exact Operation.track_step source table r
  | untrack source table =>
    rw [run, Operation.bind_after fun _ _ => rfl]
    exact Operation.untrack_step source table r

end TableAccess
