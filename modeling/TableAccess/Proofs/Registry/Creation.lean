import TableAccess.Proofs.Registry.Numbering
import TableAccess.Proofs.Registry.Removal
import TableAccess.Proofs.Store.Ledger

/-!
# When a permission is created

Creating a permission looks at the role, the table, the names, what is stored, the key and the text that would
be stored, in this order; the first of them that stands in the way decides how it fails, and nothing is
changed. If none does, the definition is stored behind all others, whether it compiles or not: that it does not
compile is only reported.

* `Registry.refusal?`: the first thing that stands in the way.
* `Registry.Created`: between two registries a permission was created, and nothing else.
* `Registry.create_refuses`, `Registry.create_of_admitted`: **creating a permission fails as the first refusal
  says, and succeeds if there is none.**
* `PermissionCache.create_decided`: the same, after any run.
-/

namespace TableAccess

/-! ## What stands in the way -/

/-- **The table is in the schema that its source has**, which is known. -/
def Registry.HasTable (r : Registry PermissionCache) (source table : String) : Prop :=
  ∃ σ, r.cache.backends.get? source = some σ ∧ σ.tableExists table = true

instance (r : Registry PermissionCache) (source table : String) : Decidable (r.HasTable source table) :=
  match h : r.cache.backends.get? source with
  | none => isFalse fun ⟨_, hσ, _⟩ => by rw [h] at hσ; cases hσ
  | some σ => decidable_of_iff (σ.tableExists table = true)
      ⟨fun ht => ⟨σ, h, ht⟩, fun ⟨_, hσ, ht⟩ => Option.some.inj (h.symm.trans hσ) ▸ ht⟩

/-- That a key can be made and has a property is seen from the key. -/
instance {p : Key → Prop} [DecidablePred p] (x : Except Failure Key) : Decidable (∃ k, x = .ok k ∧ p k) :=
  match x with
  | .ok k => decidable_of_iff (p k) (by simp)
  | .error _ => isFalse (by simp)

instance (st : Store) (i : PermissionId) : Decidable (st.Has i) :=
  inferInstanceAs (Decidable (∃ k, Key.ofId i = .ok k ∧ st.permissions.contains k = true))

instance (x : Except Failure Key) : Decidable (Key.Fits x) :=
  inferInstanceAs (Decidable (∃ k, x = .ok k ∧ k.length ≤ Key.maxLength))

instance : DecidablePred Key.NameFits := fun s =>
  inferInstanceAs (Decidable ((Key.bytes s).length ≤ Key.maxPart))

/-- **The first thing that stands in the way of creating a permission**, as the class of the failure and its
path: a role that can have no permission, a table that does not exist, a name that is too long, a permission
that is stored already, a key that is too long to be written, and a text that could not be read again, since
it is nested too deeply or its number has more than 64 bits. -/
def Registry.refusal? (r : Registry PermissionCache) (i : PermissionId) (d : Definition) :
    Option (ErrorCode × List String) :=
  if i.role = "" ∨ i.role = adminRole then some (.validationFailed, ["role"])
  else if ¬ r.HasTable i.source i.table then some (.notFound, [])
  else if ∃ name ∈ [i.source, i.table, i.role], ¬ Key.NameFits name then some (.validationFailed, [])
  else if r.store.Has i then some (.alreadyExists, [])
  else if ¬ Key.Fits (Key.ofId i) then some (.storage, [])
  else if Document.maxDepth < (StoredDefinition.mk r.store.nextSeq d).toJson.depth ∨
      Number.maxNat < r.store.nextSeq then some (.invalidCommand, [])
  else none

namespace Operation

variable {γ α β : Type} {r : Registry γ} {code : ErrorCode} {path : List String}

/-- **The operation refuses**: it fails with a failure of a class and at a path, and changes nothing. -/
def Refuses (o : Operation γ α) (r : Registry γ) (code : ErrorCode) (path : List String) : Prop :=
  ∃ f, o r = (.error f, r) ∧ f.code = code ∧ f.path = path

theorem Refuses.bind {o : Operation γ α} (h : Refuses o r code path) (f : α → Operation γ β) :
    Refuses (o >>= f) r code path := by
  obtain ⟨e, he, hcode⟩ := h
  exact ⟨e, bind_of_error he, hcode⟩

theorem Refuses.of_bind {o : Operation γ α} {f : α → Operation γ β} {a : α} (ho : o r = (.ok a, r))
    (h : Refuses (f a) r code path) : Refuses (o >>= f) r code path := by
  obtain ⟨e, he, hcode⟩ := h
  exact ⟨e, (bind_of_ok ho).trans he, hcode⟩

theorem checkRole_refuses {role : String} (h : role = "" ∨ role = adminRole) :
    Refuses (checkRole role) r .validationFailed ["role"] := by
  unfold checkRole
  split
  next => exact ⟨_, rfl, rfl, rfl⟩
  next hempty =>
    have hadmin : (role == adminRole) = true :=
      beq_iff_eq.2 (h.resolve_left fun hr => hempty (by rw [hr]; rfl))
    rw [if_pos hadmin]
    exact ⟨_, rfl, rfl, rfl⟩

theorem requireTable_refuses {r : Registry PermissionCache} {source table : String}
    (h : ¬ r.HasTable source table) : Refuses (requireTable source table) r .notFound [] := by
  cases hσ : r.cache.backends.get? source with
  | none =>
    have hunknown : schemaOf source r = (.error ⟨[], .rule (.sourceNotFound source)⟩, r) := by
      have hnone : SchemaCache.schema? r.cache source = none := hσ
      rw [schemaOf_apply, hnone]
    exact ⟨_, bind_of_error hunknown, rfl, rfl⟩
  | some σ =>
    have htable : ¬ σ.tableExists table = true := fun ht => h ⟨σ, hσ, ht⟩
    exact ⟨_, (requireTable_of_known hσ table).trans (if_neg htable), rfl, rfl⟩

/-- A write that cannot be made is refused. -/
theorem apply_refuses_of_write [SchemaCache γ] {invalidation : Invalidation} {write : Transaction α}
    {f : Failure} (hw : write r.store = .error f) : Refuses (apply invalidation write) r f.code f.path :=
  ⟨f, apply_of_error hw, rfl, rfl⟩

/-- A write that the cache cannot be rebuilt on is refused, if that is not the storage's fault. -/
theorem apply_refuses_of_rebuild [SchemaCache γ] {invalidation : Invalidation} {write : Transaction α} {a : α}
    {st : Store} {f : Failure} (hw : write r.store = .ok (a, st))
    (hc : SchemaCache.rebuild r.cache st.view invalidation = (.error f, r.cache)) (hf : f.code ≠ .storage) :
    Refuses (apply invalidation write) r f.code f.path := by
  refine ⟨f, ?_, rfl, rfl⟩
  unfold apply
  simp only [hw, hc, recover_of_ne_storage hf]

/-- What creating a permission writes, where its names fit into a key. -/
theorem created_of_key {i : PermissionId} {k : Key} (hk : Key.ofId i = .ok k) (d : Definition) (st : Store) :
    created i d st =
      if st.permissions.contains k then .error ⟨[], .alreadyExists i.kind i.table i.role⟩
      else if Key.maxLength < k.length then .error ⟨[], .storage .keySize⟩
      else .ok ((), ⟨st.permissions.insert k (StoredDefinition.mk st.nextSeq d).toJson.text, st.tracked,
        st.nextSeq + 1⟩) := by
  have hcontains : Transaction.contains i st = .ok (st.permissions.contains k, st) :=
    Transaction.contains_eq_ok.2 ⟨k, hk, rfl, rfl⟩
  show (Transaction.contains i st >>= fun p => (if p.1 then _ else _ : Transaction Unit) p.2) = _
  rw [hcontains, ok_bind]
  cases st.permissions.contains k with
  | true => rfl
  | false =>
    show (Transaction.put i ⟨st.nextSeq, d⟩ st >>= fun p => _) = _
    simp only [Transaction.put, hk, ok_bind, Transaction.writable]
    by_cases hlen : Key.maxLength < k.length
    · simp [hlen]
      rfl
    · simp [hlen]
      rfl

/-- What is written of a permission that is new and has a key, and what is left as it was. -/
theorem exists_created {i : PermissionId} {k : Key} {st : Store} (hk : Key.ofId i = .ok k)
    (hcontains : st.permissions.contains k = false) (hlen : k.length ≤ Key.maxLength) (d : Definition) :
    ∃ st', created i d st = .ok ((), st') ∧
      st'.permissions = st.permissions.insert k (StoredDefinition.mk st.nextSeq d).toJson.text ∧
      st'.nextSeq = st.nextSeq + 1 ∧ st'.tracked = st.tracked :=
  ⟨_, created_eq_ok.2 ⟨k, hk, hcontains, hlen, rfl⟩, rfl, rfl, rfl⟩

/-- Where the names do not fit into a key, nothing can be written. -/
theorem created_of_no_key {i : PermissionId} {f : Failure} (hk : Key.ofId i = .error f) (d : Definition)
    (st : Store) : created i d st = .error f := by
  show ((Key.ofId i >>= _) >>= _) >>= _ = _
  rw [hk]
  rfl

section

variable {r : Registry PermissionCache} {source table role : String} {clause : Clause} {comment : Option String}

/-- Where the role and the table are as they must be, creating a permission is one write and its rebuild. -/
theorem create_of_checked (hrole : ¬ (role = "" ∨ role = adminRole)) (ht : r.HasTable source table) :
    create source table role clause comment r =
      (apply (.object ⟨source, table, role, clause.kind⟩)
          (created ⟨source, table, role, clause.kind⟩ ⟨role, comment, clause⟩) >>= fun x =>
        (pure (Outcome.ofReport ⟨source, table, role, clause.kind⟩ x.2) :
          Operation PermissionCache Outcome)) r := by
  obtain ⟨hnamed, hadmin⟩ := not_or.1 hrole
  obtain ⟨σ, hσ, ht⟩ := ht
  have htable : requireTable source table r = (.ok (), r) := by
    rw [requireTable_of_known hσ, if_pos ht]
  unfold create
  rw [bind_of_ok (checkRole_of_named hnamed hadmin r), bind_of_ok htable]
  rfl

end

end Operation

/-! ## Texts that cannot be read again -/

theorem StoredDefinition.not_readable_iff {d : StoredDefinition} :
    ¬ d.Readable ↔ Document.maxDepth < d.toJson.depth ∨ Number.maxNat < d.seq := by
  rw [depth_toJson]
  constructor
  · intro h
    by_contra hno
    exact h ⟨by omega, by omega⟩
  · rintro (hdepth | hseq) ⟨hseq', hdepth'⟩ <;> omega

/-- The text of a definition that is not readable is refused as a document. -/
theorem StoredDefinition.decode_of_not_readable {d : StoredDefinition}
    (h : d.definition.clause.Free Number.IsSound) (hr : ¬ d.Readable) :
    ∃ e, Store.decode d.toJson.text = .error ⟨[], .unreadable e⟩ := by
  cases hd : Store.decode d.toJson.text with
  | ok d' => exact absurd ((decode_text_eq_ok_of_isSound h).1 hd).1 hr
  | error f =>
    obtain ⟨e, -, rfl⟩ := orUnreadable_eq_error.1 hd
    exact ⟨e, rfl⟩

/-- What was written as a text that cannot be read again cannot be compiled. -/
theorem PermissionCache.rebuild_of_not_readable (c : PermissionCache) {st st' : Store} {i : PermissionId}
    {k : Key} {d : StoredDefinition} (hk : Key.ofId i = .ok k)
    (hp : st'.permissions = st.permissions.insert k d.toJson.text)
    (h : d.definition.clause.Free Number.IsSound) (hr : ¬ d.Readable) :
    ∃ e, SchemaCache.rebuild c st'.view (.object i) = (.error ⟨[], .unreadable e⟩, c) := by
  obtain ⟨e, he⟩ := StoredDefinition.decode_of_not_readable h hr
  refine ⟨e, ?_⟩
  show c.rebuild _ _ = _
  rw [PermissionCache.rebuild, Store.view_definition?, Store.get?_of_write hk hp, if_pos rfl, he]
  rfl

/-! ## Names and keys -/

/-- A name that does not fit is refused. -/
theorem Key.ofId_of_not_nameFits {i : PermissionId}
    (h : ∃ name ∈ [i.source, i.table, i.role], ¬ NameFits name) :
    ∃ f, ofId i = .error f ∧ f.code = .validationFailed ∧ f.path = [] := by
  cases hk : ofId i with
  | ok k =>
    obtain ⟨name, hname, hfit⟩ := h
    exact absurd ((ofParts_eq_ok.1 hk).1 name (by simp at hname ⊢; tauto)) hfit
  | error f =>
    obtain ⟨-, s, -, -, -, -, rfl⟩ := ofParts_eq_error_iff.1 hk
    exact ⟨_, rfl, rfl, rfl⟩

/-- **A permission has a key that can be written** exactly if each of its names fits, and all of them
together. -/
theorem Key.fits_ofId_iff {i : PermissionId} :
    Fits (ofId i) ↔ (∀ name ∈ [i.source, i.table, i.role], NameFits name) ∧
      (bytes i.source).length + (bytes i.table).length + (bytes i.kind.name).length + (bytes i.role).length +
        4 ≤ maxLength := by
  constructor
  · rintro ⟨k, hk, hlen⟩
    refine ⟨fun name hname => (ofParts_eq_ok.1 hk).1 name ?_, length_of_ofId hk ▸ hlen⟩
    simp only [List.mem_cons] at hname ⊢
    tauto
  · rintro ⟨hnames, hlen⟩
    obtain ⟨k, hk⟩ := exists_ofId hnames
    exact ⟨k, hk, length_of_ofId hk ▸ hlen⟩

/-! ## Creating -/

/-- **Between two registries a permission was created, and nothing else**; `d` is what is read of it. -/
structure Registry.Created (i : PermissionId) (d : Definition) (o : Outcome)
    (r r' : Registry PermissionCache) : Prop where
  /-- What is reported is how the definition does not compile, if it does not. -/
  outcome : o = ⟨i, match r.cache.compile i d with
    | .ok _ => none
    | .error f => some ⟨i, f⟩⟩
  /-- The definition stands last. -/
  definitions : ∃ ds, r.store.definitions = .ok ds ∧ r'.store.definitions = .ok (ds ++ [(i, d)])
  stored : r'.store.get? i = .ok (some ⟨r.store.nextSeq, d⟩)
  others : ∀ j, j ≠ i → r'.store.get? j = r.store.get? j
  tracked : r'.store.tracked = r.store.tracked
  backends : r'.cache.backends = r.cache.backends
  /-- The cache holds what the definition compiles to. -/
  slot : r'.cache.slot i = .ofResult (r.cache.compile i d)
  slots : ∀ j, j ≠ i → r'.cache.slot j = r.cache.slot j

/-- What is reported of a definition that has just been compiled is how that failed. -/
theorem PermissionCache.outcome_record (c : PermissionCache) (i : PermissionId) (d : Definition) :
    Outcome.ofReport i ((c.record i d).inconsistencyOf i) = ⟨i, match c.compile i d with
      | .ok _ => none
      | .error f => some ⟨i, f⟩⟩ := by
  have hbroken : (c.record i d).inconsistent.get? i = (Slot.ofResult (c.compile i d)).broken :=
    congrArg Slot.broken ((slot_record c i i d).trans (if_pos rfl))
  rw [Outcome.ofReport_inconsistencyOf, hbroken]
  cases c.compile i d <;> rfl

theorem Registry.Created.inconsistent_eq_none_iff {i : PermissionId} {d : Definition} {o : Outcome}
    {r r' : Registry PermissionCache} (h : r.Created i d o r') :
    o.inconsistent = none ↔ ∃ p, r.cache.compile i d = .ok p := by
  rw [h.outcome]
  cases r.cache.compile i d <;> simp

/-- The floating-point numbers of a definition make no difference to whether it compiles. -/
theorem PermissionCache.exists_compile_mapFloats_iff (f : Binary64 → Binary64) {c : PermissionCache}
    {i : PermissionId} {d : Definition} :
    (∃ p, c.compile i (d.mapFloats f) = .ok p) ↔ ∃ p, c.compile i d = .ok p := by
  have halike : (d.mapFloats f).clause.Alike d.clause := Clause.alike_mapFloats f d.clause
  constructor
  · rintro ⟨p, hp⟩
    exact (compile_alike halike hp).imp fun _ h => h.1
  · rintro ⟨p, hp⟩
    exact (compile_alike halike.symm hp).imp fun _ h => h.1

namespace Registry

variable {r : Registry PermissionCache} {source table role : String} {clause : Clause} {comment : Option String}

/-- **Creating a permission fails as the first thing says that stands in the way**, and changes nothing. -/
theorem create_refuses (hc : clause.Free Number.IsSound) {code : ErrorCode} {path : List String}
    (h : r.refusal? ⟨source, table, role, clause.kind⟩ ⟨role, comment, clause⟩ = some (code, path)) :
    (Operation.create source table role clause comment).Refuses r code path := by
  unfold refusal? at h
  split at h
  next hrole =>
    cases h
    exact (Operation.checkRole_refuses hrole).bind _
  next hrole =>
  split at h
  next ht =>
    cases h
    obtain ⟨hnamed, hadmin⟩ := not_or.1 hrole
    exact .of_bind (Operation.checkRole_of_named hnamed hadmin r) ((Operation.requireTable_refuses ht).bind _)
  next ht =>
  -- behind the checks, creating is refused as the write and its rebuild are
  suffices happly : (Operation.apply (.object ⟨source, table, role, clause.kind⟩)
      (Operation.created ⟨source, table, role, clause.kind⟩ ⟨role, comment, clause⟩)).Refuses r code path by
    obtain ⟨f, hf, hcode⟩ := happly
    exact ⟨f, (Operation.create_of_checked hrole (not_not.1 ht)).trans (Operation.bind_of_error hf), hcode⟩
  split at h
  next hnames =>
    cases h
    obtain ⟨f, hk, hcode⟩ := Key.ofId_of_not_nameFits hnames
    exact ⟨f, Operation.apply_of_error (Operation.created_of_no_key hk _ _), hcode⟩
  next hnames =>
  obtain ⟨k, hk⟩ : ∃ k, Key.ofId ⟨source, table, role, clause.kind⟩ = .ok k :=
    Key.exists_ofId (by simpa using hnames)
  have hw := Operation.created_of_key hk ⟨role, comment, clause⟩ r.store
  split at h
  next hstored =>
    cases h
    obtain ⟨k', hk', hcontains⟩ := hstored
    obtain rfl := Except.ok.inj (hk.symm.trans hk')
    rw [if_pos hcontains] at hw
    exact Operation.apply_refuses_of_write hw
  next hstored =>
  have hcontains : r.store.permissions.contains k = false :=
    Bool.eq_false_of_not_eq_true fun hcontains => hstored ⟨k, hk, hcontains⟩
  split at h
  next hfits =>
    cases h
    rw [hcontains, if_neg Bool.false_ne_true,
      if_pos (Nat.lt_of_not_le fun hlen => hfits ⟨k, hk, hlen⟩)] at hw
    exact Operation.apply_refuses_of_write hw
  next hfits =>
  split at h
  next hreadable =>
    cases h
    obtain ⟨k', hk', hlen⟩ := not_not.1 hfits
    obtain rfl := Except.ok.inj (hk.symm.trans hk')
    obtain ⟨st, hw, hp, -⟩ := Operation.exists_created hk hcontains hlen ⟨role, comment, clause⟩
    -- what was written is read again to be compiled
    obtain ⟨e, hrebuild⟩ := PermissionCache.rebuild_of_not_readable r.cache hk hp hc
      (StoredDefinition.not_readable_iff.2 hreadable)
    exact Operation.apply_refuses_of_rebuild hw hrebuild nofun
  next => cases h

theorem refusal?_eq_none {i : PermissionId} {d : Definition} (h : r.refusal? i d = none) :
    ¬ (i.role = "" ∨ i.role = adminRole) ∧ r.HasTable i.source i.table ∧ ¬ r.store.Has i ∧
      Key.Fits (Key.ofId i) ∧ (StoredDefinition.mk r.store.nextSeq d).Readable := by
  unfold refusal? at h
  split_ifs at h with hrole htable hnames hstored hfits hreadable
  exact ⟨hrole, htable, hstored, hfits, not_not.1 fun hr => hreadable (StoredDefinition.not_readable_iff.1 hr)⟩

/-- **Where nothing stands in the way a permission is created**, whether its definition compiles or not. -/
theorem create_of_admitted (h : r.store.Numbered) (hc : clause.Free Number.IsSound)
    (hadmitted : r.refusal? ⟨source, table, role, clause.kind⟩ ⟨role, comment, clause⟩ = none) :
    ∃ o r', Operation.create source table role clause comment r = (.ok o, r') ∧
      r.Created ⟨source, table, role, clause.kind⟩
        ((⟨role, comment, clause⟩ : Definition).mapFloats Binary64.reread) o r' := by
  obtain ⟨hrole, htable, hstored, ⟨k, hk, hlen⟩, hreadable⟩ := refusal?_eq_none hadmitted
  have hd : Inscribed (⟨source, table, role, clause.kind⟩,
      StoredDefinition.mk r.store.nextSeq ⟨role, comment, clause⟩) := ⟨⟨rfl, rfl⟩, hc, hreadable⟩
  have hcontains : r.store.permissions.contains k = false :=
    Bool.eq_false_of_not_eq_true fun hcontains => hstored ⟨k, hk, hcontains⟩
  obtain ⟨st, hw, hp, hn, ht⟩ := Operation.exists_created hk hcontains hlen ⟨role, comment, clause⟩
  have hget := Store.get?_of_inscribed hd hk hp
  -- the cache compiles what is read of the text
  have hview : st.view.definition? ⟨source, table, role, clause.kind⟩ =
      .ok (some ((⟨role, comment, clause⟩ : Definition).mapFloats Binary64.reread)) := by
    rw [Store.view_definition?, hget, if_pos rfl]
    rfl
  have happly := Operation.apply_of_ok (r := r) hw (PermissionCache.rebuild_object _ hview)
  have hslot := PermissionCache.slot_record r.cache ⟨source, table, role, clause.kind⟩
  have hnew : ∀ e, r.store.get? ⟨source, table, role, clause.kind⟩ ≠ .ok (some e) := fun e he =>
    hstored (h.legible.has_iff_get?.2 ⟨e, he⟩)
  refine ⟨_, _, (Operation.create_of_checked hrole htable).trans (Operation.bind_of_ok happly), ?_,
    h.definitions_concat hd hk hp rfl hn hnew, (hget _).trans (if_pos rfl),
    fun j hj => (hget j).trans (if_neg hj), ht, PermissionCache.backends_record _ _ _,
    (hslot _ _).trans (if_pos rfl), fun j hj => (hslot j _).trans (if_neg hj)⟩
  exact PermissionCache.outcome_record _ _ _

end Registry

/-- **Creating a permission is decided before it is compiled.** Run an empty store, on any cache, through
command documents and other schemas for its sources, and create a permission whose clause is one that can be
read. If something stands in the way, the first such thing says how this fails, and nothing is changed; the
number that the definition would have is that of the definitions inserted so far, and one more, so it has 64
bits as long as there are fewer than `2 ^ 64 - 1` of them. Otherwise the definition is stored behind all others
as it is read from its text, which is as it was given if its numbers read back; nothing else is changed but the
slot of the permission, and an inconsistency is reported exactly if the clause does not compile against the
schema that the source has now. -/
theorem PermissionCache.create_decided (c : PermissionCache) {es : List Event}
    (hes : ∀ doc, Event.command doc ∈ es → doc.AllNumbers Number.IsSound) (source table role : String)
    {clause : Clause} (hc : clause.Free Number.IsSound) (comment : Option String) :
    let start : Registry PermissionCache := ⟨.empty, c⟩
    let r := es.foldl (Event.run PermissionCache.setBackend) start
    let i : PermissionId := ⟨source, table, role, clause.kind⟩
    let d : Definition := ⟨role, comment, clause⟩
    r.store.nextSeq = (Event.deedsAll start es).countP Deed.creates + 1 ∧
    (∀ code path, r.refusal? i d = some (code, path) →
      (Operation.create source table role clause comment).Refuses r code path) ∧
    (r.refusal? i d = none →
      ∃ o r' σ, Operation.create source table role clause comment r = (.ok o, r') ∧
        r.Created i (d.mapFloats Binary64.reread) o r' ∧
        (clause.Storable → d.mapFloats Binary64.reread = d) ∧
        r.cache.backends.get? source = some σ ∧
        (o.inconsistent = none ↔ ∃ p, Permission.compile σ source table clause = .ok p)) := by
  intro start r i d
  have hnumbered : r.store.Numbered := Store.Numbered.empty.run (r := start) hes
  have hseq : start.store.nextSeq = List.countP Deed.creates [] + 1 := rfl
  refine ⟨Event.nextSeq_run hseq es, fun code path hrefusal => Registry.create_refuses hc hrefusal,
    fun hadmitted => ?_⟩
  obtain ⟨o, r', hcreate, hcreated⟩ := Registry.create_of_admitted hnumbered hc hadmitted
  obtain ⟨-, ⟨σ, hσ, htable⟩, -, -, hreadable⟩ := Registry.refusal?_eq_none hadmitted
  refine ⟨o, r', σ, hcreate, hcreated, fun hs => ?_, hσ, ?_⟩
  · have hback := (StoredDefinition.decode_text_eq_ok (d := ⟨r.store.nextSeq, d⟩) hs).2 ⟨hreadable, rfl⟩
    have hread := (StoredDefinition.decode_text_eq_ok_of_isSound hc).2 ⟨hreadable, rfl⟩
    exact congrArg StoredDefinition.definition (Except.ok.inj (hread.symm.trans hback))
  · rw [hcreated.inconsistent_eq_none_iff, PermissionCache.exists_compile_mapFloats_iff]
    simp [PermissionCache.compile_eq_ok, hσ, htable, i]

/-- Two roles are to get a permission on authors by a column that they do not have: one that has a permission
already, and one that has none, which gets one that does not compile. -/
theorem PermissionCache.create_decided_authors :
    let authors : Schema := (Catalog.ofTables [⟨"author", [⟨"id", .integer⟩], [], []⟩]).schema
    let create : Json := .obj [("args",
      .obj [("permission", .obj [("filter", .obj [("id", .obj [("_eq", .int 1)])])]),
        ("role", .str "user"), ("table", .str "author")]), ("type", .str "create_delete_permission")]
    let clause : Clause := .delete ⟨.obj [("name", .obj [("_eq", .int 1)])]⟩
    let es : List Event := [.command create]
    let start : Registry PermissionCache := ⟨.empty, .ofBackends (.ofList [("default", authors)])⟩
    let r := es.foldl (Event.run PermissionCache.setBackend) start
    (∀ doc, Event.command doc ∈ es → doc.AllNumbers Number.IsSound) ∧ clause.Free Number.IsSound ∧
      (Operation.create "default" "author" "user" clause none).Refuses r .alreadyExists [] ∧
      ∃ o r', Operation.create "default" "author" "editor" clause none r = (.ok o, r') ∧
        o.inconsistent ≠ none ∧ ∃ ds, r.store.definitions = .ok ds ∧ r'.store.definitions =
          .ok (ds ++ [(⟨"default", "author", "editor", .delete⟩, ⟨"editor", none, clause⟩)]) := by
  intro authors create clause es start r
  have hes : ∀ doc, Event.command doc ∈ es → doc.AllNumbers Number.IsSound := by
    intro doc hdoc n hn
    obtain rfl : doc = create := by simpa [es] using hdoc
    obtain rfl : n = .int 1 := List.mem_singleton.1 hn
    exact (by decide : Number.isInteger 1 = true)
  have hnumber : ∀ {N : Number → Prop}, N (.int 1) → clause.Free N := by
    intro N hN
    refine DeleteClause.Free.mk ⟨by simp [Json.int, Json.IsCanonical, Json.HaveCanonical], fun n hn => ?_⟩
    obtain rfl : n = .int 1 := List.mem_singleton.1 hn
    exact hN
  have hc : clause.Free Number.IsSound := hnumber (by decide : Number.isInteger 1 = true)
  have hcreate : Script.isList create = false := by decide +kernel
  have hr : r = ((Script.single create).run start).2 := by
    show [Event.command create].foldl _ start = _
    rw [List.foldl_cons, List.foldl_nil, Event.run_single hcreate]
  have hstored : r.refusal? ⟨"default", "author", "user", .delete⟩ ⟨"user", none, clause⟩ =
      some (.alreadyExists, []) := by
    rw [hr]
    decide +kernel
  have hnew : r.refusal? ⟨"default", "author", "editor", .delete⟩ ⟨"editor", none, clause⟩ = none := by
    rw [hr]
    decide +kernel
  obtain ⟨-, hrefuses, -⟩ := PermissionCache.create_decided start.cache hes "default" "author" "user" hc none
  obtain ⟨-, -, hcreates⟩ := PermissionCache.create_decided start.cache hes "default" "author" "editor" hc none
  obtain ⟨o, r', σ, hcreated, hchange, hback, -, -⟩ := hcreates hnew
  rw [hback (hnumber (Number.readsBack_int (by decide)))] at hchange
  have hcompile : (r.cache.compile ⟨"default", "author", "editor", .delete⟩ ⟨"editor", none, clause⟩).isOk =
      false := by
    rw [hr]
    decide +kernel
  refine ⟨hes, hc, hrefuses _ _ hstored, o, r', hcreated, fun hnone => ?_, hchange.definitions⟩
  obtain ⟨p, hp⟩ := hchange.inconsistent_eq_none_iff.1 hnone
  obtain ⟨f, hf⟩ := exists_error_of_isOk hcompile
  cases hp.symm.trans hf

end TableAccess
