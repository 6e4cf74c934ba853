import TableAccess.Command.Script
import TableAccess.Proofs.Store.Writing

/-!
# What operations leave behind

An operation on a registry leaves a registry behind whether it succeeds or not. It changes nothing
before its one transaction, so what it leaves is the registry as it was, or what `apply` or `commit`
makes of it.

* `bind_apply`: one operation after another.
* `create_after`, `drop_after`, `setComment_after`, `track_after`, `untrack_after`: **what an
  operation leaves.**
* `created`, `dropped`, `commented`, `untracked`: what the transactions write.
-/

namespace TableAccess

namespace Operation

variable {γ α β : Type} {r : Registry γ}

/-! ## Putting operations together -/

/-- **One operation after another**: the second starts with what the first has left, if that succeeds. -/
theorem bind_apply (o : Operation γ α) (f : α → Operation γ β) (r : Registry γ) :
    (o >>= f) r = match o r with
      | (.ok a, r') => f a r'
      | (.error e, r') => (.error e, r') := by
  show (ExceptT.bind o f) r = _
  simp only [ExceptT.bind, ExceptT.mk, StateT.bind, bind]
  rcases o r with ⟨_ | _, _⟩ <;> rfl

theorem bind_of_ok {o : Operation γ α} {f : α → Operation γ β} {a : α} {r' : Registry γ}
    (h : o r = (.ok a, r')) : (o >>= f) r = f a r' := by
  rw [bind_apply, h]

theorem bind_of_error {o : Operation γ α} {f : α → Operation γ β} {e : Failure} {r' : Registry γ}
    (h : o r = (.error e, r')) : (o >>= f) r = (.error e, r') := by
  rw [bind_apply, h]

theorem bind_eq_ok {o : Operation γ α} {f : α → Operation γ β} {b : β} {r' : Registry γ} :
    (o >>= f) r = (.ok b, r') ↔ ∃ a r₁, o r = (.ok a, r₁) ∧ f a r₁ = (.ok b, r') := by
  rcases h : o r with ⟨e | a, r₁⟩
  · rw [bind_of_error h]
    exact ⟨fun h => (by cases h), fun ⟨_, _, h, _⟩ => (by cases h)⟩
  · rw [bind_of_ok h]
    exact ⟨fun h => ⟨a, r₁, rfl, h⟩, fun ⟨_, _, h, h'⟩ => (by cases h; exact h')⟩

/-- One operation after another fails if the first does, or the second on what the first has left. -/
theorem bind_eq_error {o : Operation γ α} {f : α → Operation γ β} {e : Failure} {r' : Registry γ} :
    (o >>= f) r = (.error e, r') ↔
      o r = (.error e, r') ∨ ∃ a r₁, o r = (.ok a, r₁) ∧ f a r₁ = (.error e, r') := by
  rcases h : o r with ⟨e' | a, r₁⟩
  · rw [bind_of_error h]
    refine ⟨fun h => .inl (by cases h; rfl), ?_⟩
    rintro (h | ⟨_, _, h, -⟩) <;> cases h
    rfl
  · rw [bind_of_ok h]
    refine ⟨fun h => .inr ⟨a, r₁, rfl, h⟩, ?_⟩
    rintro (h | ⟨_, _, h, h'⟩) <;> cases h
    exact h'

/-- What follows and changes nothing can be left out. -/
theorem bind_after {o : Operation γ α} {f : α → Operation γ β} (hf : ∀ a r, (f a r).2 = r) :
    ((o >>= f) r).2 = (o r).2 := by
  rw [bind_apply]
  rcases o r with ⟨_ | _, _⟩
  · rfl
  · exact hf _ _

/-! ## Checks -/

theorem checkRole_cases (role : String) (r : Registry γ) :
    (∃ e, checkRole role r = (.error e, r)) ∨ checkRole role r = (.ok (), r) := by
  unfold checkRole
  split
  · exact .inl ⟨_, rfl⟩
  · split
    · exact .inl ⟨_, rfl⟩
    · exact .inr rfl

theorem checkRole_of_named {role : String} (hnamed : role ≠ "") (hadmin : role ≠ adminRole)
    (r : Registry γ) : checkRole role r = (.ok (), r) := by
  have hempty : role.isEmpty = false := by simpa using hnamed
  simp only [checkRole, hempty, Bool.false_eq_true, if_false, beq_iff_eq, hadmin]
  rfl

variable [SchemaCache γ]

theorem schemaOf_apply (source : String) (r : Registry γ) :
    schemaOf source r = match SchemaCache.schema? r.cache source with
      | none => (.error ⟨[], .rule (.sourceNotFound source)⟩, r)
      | some σ => (.ok σ, r) := by
  have hget : (get : Operation γ (Registry γ)) r = (.ok r, r) := rfl
  unfold schemaOf
  rw [bind_of_ok hget]
  cases SchemaCache.schema? r.cache source <;> rfl

theorem schemaOf_cases (source : String) (r : Registry γ) :
    (∃ e, schemaOf source r = (.error e, r)) ∨
      ∃ σ, SchemaCache.schema? r.cache source = some σ ∧ schemaOf source r = (.ok σ, r) := by
  rw [schemaOf_apply]
  cases SchemaCache.schema? r.cache source with
  | none => exact .inl ⟨_, rfl⟩
  | some σ => exact .inr ⟨σ, rfl, rfl⟩

theorem requireTable_cases (source table : String) (r : Registry γ) :
    (∃ e, requireTable source table r = (.error e, r)) ∨
      ∃ σ, SchemaCache.schema? r.cache source = some σ ∧ σ.tableExists table = true ∧
        requireTable source table r = (.ok (), r) := by
  unfold requireTable
  rcases schemaOf_cases source r with ⟨e, h⟩ | ⟨σ, hσ, h⟩
  · exact .inl ⟨e, bind_of_error h⟩
  · rw [bind_of_ok h]
    split
    next ht => exact .inr ⟨σ, hσ, ht, rfl⟩
    next => exact .inl ⟨_, rfl⟩

/-- The table of a source that is known must exist. -/
theorem requireTable_of_known {source : String} {σ : Schema}
    (hσ : SchemaCache.schema? r.cache source = some σ) (table : String) :
    requireTable source table r = if σ.tableExists table then (.ok (), r)
      else (.error ⟨[], .rule (.tableNotFound source table)⟩, r) := by
  have hschema : schemaOf source r = (.ok σ, r) := by rw [schemaOf_apply, hσ]
  unfold requireTable
  rw [bind_of_ok hschema]
  split <;> rfl

/-! ## Transactions of operations -/

/-- Inserts a definition, which must not be there. -/
def created (i : PermissionId) (d : Definition) : Transaction Unit := do
  if ← Transaction.contains i then Transaction.abort ⟨[], .alreadyExists i.kind i.table i.role⟩
  else Transaction.insert i d

/-- Removes a definition, which must be there. -/
def dropped (i : PermissionId) : Transaction Unit := do
  if ← Transaction.remove i then return () else Transaction.abort (notDefined i)

/-- Changes the comment of a definition, which must be there. -/
def commented (i : PermissionId) (comment : Option String) : Transaction Unit := do
  if ← Transaction.setComment i comment then return () else Transaction.abort (notDefined i)

/-- Untracks a table, which must be tracked. -/
def untracked (source table : String) : Transaction (List PermissionId) := do
  if ← Transaction.isTracked source table then Transaction.untrack source table
  else Transaction.abort ⟨[], .rule (.tableNotFound source table)⟩

theorem create_after (source table role : String) (clause : Clause) (comment : Option String)
    (r : Registry γ) :
    (create source table role clause comment r).2 = r ∨
      (∃ σ, SchemaCache.schema? r.cache source = some σ ∧ σ.tableExists table = true) ∧
        (create source table role clause comment r).2 =
          (apply (.object ⟨source, table, role, clause.kind⟩)
            (created ⟨source, table, role, clause.kind⟩ ⟨role, comment, clause⟩) r).2 := by
  unfold create
  rcases checkRole_cases role r with ⟨e, h⟩ | h
  · exact .inl (by rw [bind_of_error h])
  rw [bind_of_ok h]
  rcases requireTable_cases source table r with ⟨e, h⟩ | ⟨σ, hσ, htable, h⟩
  · exact .inl (by rw [bind_of_error h])
  rw [bind_of_ok h]
  exact .inr ⟨⟨σ, hσ, htable⟩, bind_after fun _ _ => rfl⟩

theorem drop_after (i : PermissionId) (r : Registry γ) :
    (drop i r).2 = r ∨ (drop i r).2 = (apply .full (dropped i) r).2 := by
  unfold drop
  rcases requireTable_cases i.source i.table r with ⟨e, h⟩ | ⟨σ, -, -, h⟩
  · exact .inl (by rw [bind_of_error h])
  rw [bind_of_ok h]
  exact .inr (bind_after fun _ _ => rfl)

theorem setComment_after (i : PermissionId) (comment : Option String) (r : Registry γ) :
    (setComment i comment r).2 = r ∨
      (setComment i comment r).2 = (apply (.comment i) (commented i comment) r).2 := by
  unfold setComment
  rcases requireTable_cases i.source i.table r with ⟨e, h⟩ | ⟨σ, -, -, h⟩
  · exact .inl (by rw [bind_of_error h])
  rw [bind_of_ok h]
  exact .inr (bind_after fun _ _ => rfl)

theorem untrack_after (source table : String) (r : Registry γ) :
    (untrack source table r).2 = r ∨
      (untrack source table r).2 = (apply .full (untracked source table) r).2 := by
  unfold untrack
  rcases schemaOf_cases source r with ⟨e, h⟩ | ⟨σ, -, h⟩
  · exact .inl (by rw [bind_of_error h])
  rw [bind_of_ok h]
  exact .inr (bind_after fun _ _ => rfl)

/-- Tracking a table changes neither the definitions nor the cache. -/
theorem track_after (source table : String) (r : Registry γ) :
    ∃ tracked, (track source table r).2 = { r with store := { r.store with tracked } } := by
  unfold track
  rcases requireTable_cases source table r with ⟨e, h⟩ | ⟨σ, -, -, h⟩
  · exact ⟨r.store.tracked, by rw [bind_of_error h]⟩
  rw [bind_of_ok h]
  rcases ht : r.store.transact _ with ⟨f | u, st⟩
  · rw [commit, ht, Transaction.transact_eq_error ht]
    exact ⟨_, rfl⟩
  · obtain ⟨b, st₁, hb, hst⟩ := Transaction.bind_eq_ok.1 (Transaction.transact_eq_ok.1 ht)
    obtain ⟨-, rfl⟩ := Transaction.look_eq_ok.1 hb
    -- a table that is tracked already is refused
    cases b with
    | true => cases hst
    | false =>
      obtain ⟨k, -, -, rfl⟩ := Transaction.track_eq_ok.1 hst
      rw [commit, ht]
      exact ⟨_, rfl⟩

/-- A failure that is not the storage's fault leaves everything as it is. -/
theorem recover_of_ne_storage {f : Failure} (h : f.code ≠ .storage) (r : Registry γ) : recover f r = r := by
  rw [recover, if_neg fun hf => h (beq_iff_eq.1 hf)]

/-- After a failure of the storage the cache is rebuilt on the store. -/
theorem recover_of_storage {f : Failure} (h : f.code = .storage) (r : Registry γ) :
    recover f r = ⟨r.store, (SchemaCache.rebuild r.cache r.store.view .full).2⟩ := by
  rw [recover, if_pos (beq_iff_eq.2 h)]

/-- What `apply` leaves: the registry as it was if nothing could be written, what was written and the
rebuilt cache if both succeeded, and else the store as it was. -/
theorem apply_after (invalidation : Invalidation) (write : Transaction α) (r : Registry γ) :
    (apply invalidation write r).2 = r ∨
      ∃ a st report c, write r.store = .ok (a, st) ∧
        SchemaCache.rebuild r.cache st.view invalidation = (report, c) ∧
        ((∃ xs, report = .ok xs ∧ (apply invalidation write r).2 = ⟨st, c⟩) ∨
          ∃ f, report = .error f ∧
            ((apply invalidation write r).2 = ⟨r.store, c⟩ ∨
              (apply invalidation write r).2 =
                ⟨r.store, (SchemaCache.rebuild c r.store.view .full).2⟩)) := by
  unfold apply
  cases hw : write r.store with
  | error f => exact .inl rfl
  | ok p =>
    obtain ⟨a, st⟩ := p
    right
    rcases hc : SchemaCache.rebuild r.cache st.view invalidation with ⟨report, c⟩
    refine ⟨a, st, report, c, rfl, hc, ?_⟩
    cases report with
    | ok xs =>
      simp only [hc]
      exact .inl ⟨xs, rfl, rfl⟩
    | error f =>
      -- only after a failure of the storage is everything compiled again
      refine .inr ⟨f, rfl, ?_⟩
      simp only [hc]
      by_cases hf : f.code = .storage
      · exact .inr (recover_of_storage hf _)
      · exact .inl (recover_of_ne_storage hf _)

/-- A write that can be made, and that the cache can be rebuilt on, is kept. -/
theorem apply_of_ok {invalidation : Invalidation} {write : Transaction α} {a : α} {st : Store}
    {xs : List Inconsistency} {c : γ} (hw : write r.store = .ok (a, st))
    (hc : SchemaCache.rebuild r.cache st.view invalidation = (.ok xs, c)) :
    apply invalidation write r = (.ok (a, xs), ⟨st, c⟩) := by
  unfold apply
  simp only [hw, hc]
  rfl

/-- **A write is kept exactly if it can be made and the cache can be rebuilt on it.** -/
theorem apply_eq_ok {r' : Registry γ} {invalidation : Invalidation} {write : Transaction α}
    {x : α × List Inconsistency} :
    apply invalidation write r = (.ok x, r') ↔ ∃ st c, write r.store = .ok (x.1, st) ∧
      SchemaCache.rebuild r.cache st.view invalidation = (.ok x.2, c) ∧ ⟨st, c⟩ = r' := by
  constructor
  · intro h
    unfold apply at h
    split at h
    next => cases h
    next a st hwrite =>
      split at h
      next => cases h
      next xs c hc =>
        cases h
        exact ⟨st, c, hwrite, hc, rfl⟩
  · rintro ⟨st, c, hwrite, hc, rfl⟩
    exact apply_of_ok hwrite hc

theorem apply_of_error {invalidation : Invalidation} {write : Transaction α} {f : Failure}
    (hw : write r.store = .error f) : apply invalidation write r = (.error f, r) := by
  unfold apply
  simp only [hw]

/-! ## What the transactions write -/

variable {st st' : Store} {l : Contents} {i : PermissionId}

/-- Creating a permission writes it under a key that holds nothing. -/
theorem created_eq_ok {d : Definition} {u : Unit} : created i d st = .ok (u, st') ↔
    ∃ k, Key.ofId i = .ok k ∧ st.permissions.contains k = false ∧ k.length ≤ Key.maxLength ∧
      (⟨st.permissions.insert k (StoredDefinition.mk st.nextSeq d).toJson.text, st.tracked,
        st.nextSeq + 1⟩ : Store) = st' := by
  simp only [created, Transaction.bind_eq_ok, Transaction.contains_eq_ok]
  constructor
  · rintro ⟨b, _, ⟨k, hk, hcontains, rfl⟩, hw⟩
    cases b with
    | true => cases hw
    | false =>
      obtain ⟨k', hk', hlen, hst⟩ := Transaction.insert_eq_ok.1 hw
      obtain rfl := Except.ok.inj (hk.symm.trans hk')
      exact ⟨k, hk, hcontains, hlen, hst⟩
  · rintro ⟨k, hk, hcontains, hlen, hst⟩
    exact ⟨false, st, ⟨k, hk, hcontains, rfl⟩, Transaction.insert_eq_ok.2 ⟨k, hk, hlen, hst⟩⟩

/-- Dropping a permission erases its key, which must hold something. -/
theorem dropped_eq_ok {u : Unit} : dropped i st = .ok (u, st') ↔
    ∃ k, Key.ofId i = .ok k ∧ st.permissions.contains k = true ∧
      { st with permissions := st.permissions.erase k } = st' := by
  simp only [dropped, Transaction.bind_eq_ok, Transaction.remove_eq_ok]
  constructor
  · rintro ⟨b, st₁, ⟨k, hk, hcontains, rfl⟩, hw⟩
    cases b with
    | true => exact ⟨k, hk, hcontains, (Transaction.pure_eq_ok.1 hw).2⟩
    | false => cases hw
  · rintro ⟨k, hk, hcontains, hst⟩
    exact ⟨true, _, ⟨k, hk, hcontains, rfl⟩, Transaction.pure_eq_ok.2 ⟨rfl, hst⟩⟩

/-- Changing a comment writes the definition that is found again. -/
theorem commented_eq_ok {comment : Option String} {u : Unit} : commented i comment st = .ok (u, st') ↔
    ∃ d k, st.get? i = .ok (some d) ∧ Key.ofId i = .ok k ∧ k.length ≤ Key.maxLength ∧
      (⟨st.permissions.insert k
        (StoredDefinition.mk d.seq { d.definition with comment }).toJson.text, st.tracked, st.nextSeq⟩ :
        Store) = st' := by
  simp only [commented, Transaction.bind_eq_ok, Transaction.setComment_eq_ok, Transaction.put_eq_ok]
  constructor
  · rintro ⟨_, st₁, ⟨-, rfl, -⟩ | ⟨d, hd, rfl, k, hk, hlen, rfl⟩, hw⟩
    · cases hw
    · exact ⟨d, k, hd, hk, hlen, (Transaction.pure_eq_ok.1 hw).2⟩
  · rintro ⟨d, k, hd, hk, hlen, hst⟩
    exact ⟨true, _, .inr ⟨d, hd, rfl, k, hk, hlen, rfl⟩, Transaction.pure_eq_ok.2 ⟨rfl, hst⟩⟩

/-- Untracking a table is allowed where it is tracked. -/
theorem untracked_eq_ok {source table : String} {is : List PermissionId} :
    untracked source table st = .ok (is, st') ↔
      st.isTracked source table = .ok true ∧ Transaction.untrack source table st = .ok (is, st') := by
  simp only [untracked, Transaction.bind_eq_ok, Transaction.isTracked, Transaction.look_eq_ok]
  constructor
  · rintro ⟨b, _, ⟨hb, rfl⟩, hw⟩
    cases b with
    | true => exact ⟨hb, hw⟩
    | false => cases hw
  · rintro ⟨hb, hw⟩
    exact ⟨true, st, ⟨hb, rfl⟩, hw⟩

theorem created_holds (h : st.Holds l) {d : Definition} (hd : d.clause.Storable) {u : Unit}
    (hw : created i d st = .ok (u, st')) :
    i ∉ l.map (·.1) ∧ st'.Holds (l ++ [(i, ⟨st.nextSeq, d⟩)]) := by
  obtain ⟨k, hk, hcontains, -, rfl⟩ := created_eq_ok.1 hw
  have hnew : i ∉ l.map (·.1) := by
    rw [SortedMap.contains, h.get?_text hk, Option.isSome_map, Option.isSome_eq_false_iff,
      Option.isNone_iff_eq_none] at hcontains
    exact Contents.lookup_eq_none_iff.1 hcontains
  have hl := h.insert hk hd
  rw [Contents.without_of_not_mem hnew] at hl
  exact ⟨hnew, hl⟩

theorem dropped_holds (h : st.Holds l) {u : Unit} (hw : dropped i st = .ok (u, st')) :
    st'.Holds (l.without i) := by
  obtain ⟨k, hk, -, rfl⟩ := dropped_eq_ok.1 hw
  exact h.remove hk

theorem commented_holds (h : st.Holds l) {comment : Option String} {u : Unit}
    (hw : commented i comment st = .ok (u, st')) :
    ∃ d, l.lookup i = some d ∧
      st'.Holds (l.replace i { d with definition := { d.definition with comment } }) := by
  obtain ⟨d, k, hget, hk, -, rfl⟩ := commented_eq_ok.1 hw
  obtain ⟨-, -, hd⟩ := h.get?_eq_ok.1 hget
  have hs := h.storable _ ((Contents.lookup_eq_some_iff h.ids).1 hd.symm)
  exact ⟨d, hd.symm, h.replace hk hd.symm rfl hs⟩

theorem untracked_holds (h : st.Holds l) {source table : String} {is : List PermissionId}
    (hw : untracked source table st = .ok (is, st')) :
    st'.Holds (l.filter fun e => ¬ (e.1.source = source ∧ e.1.table = table)) :=
  (h.untrack (untracked_eq_ok.1 hw).2).2.1

end Operation

/-- What is reported of a permission is its inconsistency, if it has one. -/
theorem Outcome.ofReport_inconsistencyOf (c : PermissionCache) (i : PermissionId) :
    ofReport i (c.inconsistencyOf i) = ⟨i, (c.inconsistent.get? i).map fun f => ⟨i, f⟩⟩ := by
  unfold ofReport PermissionCache.inconsistencyOf
  cases c.inconsistent.get? i <;> simp

end TableAccess
