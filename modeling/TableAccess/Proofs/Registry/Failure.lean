import TableAccess.Proofs.Registry.Operation
import TableAccess.Proofs.Store.KeyReading

/-!
# What a failed command leaves behind

A command can fail while it is read, in the checks before its transaction, in the transaction, and when
the cache is rebuilt on what was written, which is then not kept. Wherever it fails, the store and the
cache are as they were: a rebuild that fails changes nothing, and where everything is compiled again for
the sake of the storage, that fails as well. Commits succeed here.

* `Operation.Looks`, `Operation.Atomic`: an operation changes nothing, and changes nothing where it fails.
* `Operation.atomic_apply`: **a write that cannot be kept leaves no trace.**
* `Operation.atomic_command`: **a command that fails leaves no trace.**
-/

namespace TableAccess

/-! ## Rebuilds that fail -/

/-- **Rebuilding fails only where the definitions cannot be looked up**, and then changes nothing. -/
theorem PermissionCache.rebuild_eq_error {c c' : PermissionCache} {view : View}
    {invalidation : Invalidation} {f : Failure} :
    c.rebuild view invalidation = (.error f, c') ↔ c' = c ∧
      ((∃ i, invalidation = .object i ∧ view.definition? i = .error f) ∨
        (invalidation = .full ∧ view.definitions = .error f)) := by
  cases invalidation with
  | object i =>
    cases hd : view.definition? i with
    | ok d? => simp [rebuild, hd]
    | error e => simp [rebuild, hd, and_comm, eq_comm]
  | full =>
    cases hd : view.definitions with
    | ok ds => simp [rebuild, hd]
    | error e => simp [rebuild, hd, and_comm, eq_comm]
  | comment i => simp [rebuild]

/-- A name that is too long is refused. -/
theorem Key.code_of_ofParts {l : List String} {f : Failure} (h : ofParts l = .error f) :
    f.code = .validationFailed := by
  obtain ⟨-, s, -, -, -, -, rfl⟩ := ofParts_eq_error_iff.1 h
  rfl

/-- That the definition of a permission cannot be looked up is not the storage's fault. -/
theorem Store.code_of_definition? {st : Store} {i : PermissionId} {f : Failure}
    (h : st.definition? i = .error f) : f.code ≠ .storage := by
  rcases bind_eq_error.1 h with h | ⟨_, -, h⟩
  · rcases bind_eq_error.1 h with h | ⟨k, -, h⟩
    · rw [Key.code_of_ofParts h]
      nofun
    · split at h
      next => cases h
      next text _ =>
        rcases bind_eq_error.1 h with h | ⟨_, -, h⟩
        · obtain ⟨e, -, rfl⟩ := orUnreadable_eq_error.1 h
          nofun
        · cases h
  · cases h

/-- **All definitions can be read exactly if each can.** -/
theorem Store.exists_definitions_iff {st : Store} :
    (∃ ds, st.definitions = .ok ds) ↔ ∀ b ∈ st.permissions.toList, ∃ e, entry b = .ok e := by
  have hall : (st.permissions.toList.filter fun b => ([] : Key).isPrefixOf b.1) = st.permissions.toList :=
    List.filter_eq_self.2 fun b _ => List.isPrefixOf_nil_left
  constructor
  · rintro ⟨ds, hds⟩
    obtain ⟨_, hscan, -⟩ := bind_eq_ok.1 hds
    obtain ⟨found, hfound, -⟩ := bind_eq_ok.1 hscan
    rw [hall] at hfound
    intro b hb
    obtain ⟨e, -, he⟩ := ok_of_mem_mapM hfound hb
    exact ⟨e, he⟩
  · intro h
    obtain ⟨found, hfound⟩ := exists_mapM_eq_ok h
    rw [← hall] at hfound
    exact ⟨_, bind_eq_ok.2 ⟨_, bind_eq_ok.2 ⟨found, hfound, rfl⟩, rfl⟩⟩

/-- Where a scan fails, one that also finds what was removed fails as well, and nothing is compiled. -/
theorem PermissionCache.rebuild_full_of_subset (c : PermissionCache) {st st' : Store} {f : Failure}
    (h : st'.permissions.toList ⊆ st.permissions.toList) (hd : st'.definitions = .error f) :
    (c.rebuild st.view .full).2 = c := by
  cases hold : st.definitions with
  | ok ds =>
    have hread := Store.exists_definitions_iff.1 ⟨ds, hold⟩
    obtain ⟨ds', hds'⟩ := Store.exists_definitions_iff.2 fun b hb => hread b (h hb)
    cases hd.symm.trans hds'
  | error e =>
    have hagain : c.rebuild st.view .full = (.error e, c) :=
      PermissionCache.rebuild_eq_error.2 ⟨rfl, .inr ⟨rfl, hold⟩⟩
    rw [hagain]

/-! ## Transactions that only remove -/

namespace Transaction

variable {st st' : Store} {i : PermissionId}

theorem remove_subset {b : Bool} (h : remove i st = .ok (b, st')) :
    st'.permissions.toList ⊆ st.permissions.toList := by
  obtain ⟨k, -, -, rfl⟩ := remove_eq_ok.1 h
  exact List.filter_sublist.subset

theorem removeAll_subset {is : List PermissionId} {u : Unit} (h : removeAll is st = .ok (u, st')) :
    st'.permissions.toList ⊆ st.permissions.toList := by
  induction is generalizing st with
  | nil =>
    obtain ⟨-, rfl⟩ := pure_eq_ok.1 h
    exact List.Subset.refl _
  | cons i is ih =>
    obtain ⟨_, st₁, hremove, h⟩ := bind_eq_ok.1 h
    exact List.Subset.trans (ih h) (remove_subset hremove)

end Transaction

namespace Operation

variable {st st' : Store}

theorem dropped_subset {i : PermissionId} {u : Unit} (h : dropped i st = .ok (u, st')) :
    st'.permissions.toList ⊆ st.permissions.toList := by
  obtain ⟨k, -, -, rfl⟩ := dropped_eq_ok.1 h
  exact List.filter_sublist.subset

theorem untracked_subset {source table : String} {is : List PermissionId}
    (h : untracked source table st = .ok (is, st')) : st'.permissions.toList ⊆ st.permissions.toList := by
  obtain ⟨k, found, st₁, -, -, -, hremove, rfl⟩ := Transaction.untrack_eq_ok.1 (untracked_eq_ok.1 h).2
  exact (Transaction.removeAll_subset hremove :)

/-! ## Operations that change nothing, and those that do only if they succeed -/

variable {γ α β : Type}

/-- The operation changes nothing. -/
def Looks (o : Operation γ α) : Prop := ∀ r, (o r).2 = r

/-- **The operation changes nothing where it fails.** -/
def Atomic (o : Operation γ α) : Prop := ∀ r r' f, o r = (.error f, r') → r' = r

theorem Looks.eq {o : Operation γ α} (ho : Looks o) {r r' : Registry γ} {x : Except Failure α}
    (h : o r = (x, r')) : r' = r := by
  have hr := ho r
  rwa [h] at hr

/-- A check changes nothing that the operation behind it would have to take back. -/
theorem Looks.bind {o : Operation γ α} {f : α → Operation γ β} (ho : Looks o) (hf : ∀ a, Atomic (f a)) :
    Atomic (o >>= f) := by
  intro r r' e h
  rcases bind_eq_error.1 h with ho' | ⟨a, r₁, ha, hfa⟩
  · exact ho.eq ho'
  · obtain rfl := ho.eq ha
    exact hf a _ _ e hfa

/-- What succeeds after a look at the registry, succeeds on the registry itself. -/
theorem Looks.exists_of_bind {o : Operation γ α} {f : α → Operation γ β} {b : β} {r r' : Registry γ}
    (ho : Looks o) (h : (o >>= f) r = (.ok b, r')) : ∃ a, f a r = (.ok b, r') := by
  obtain ⟨a, _, ha, hf⟩ := bind_eq_ok.1 h
  obtain rfl := ho.eq ha
  exact ⟨a, hf⟩

/-- What succeeds before a look at the registry has left it. -/
theorem exists_of_bind_looks {o : Operation γ α} {f : α → Operation γ β} {b : β} {r r' : Registry γ}
    (hf : ∀ a, Looks (f a)) (h : (o >>= f) r = (.ok b, r')) : ∃ a, o r = (.ok a, r') := by
  obtain ⟨a, r₁, ha, hb⟩ := bind_eq_ok.1 h
  obtain rfl := (hf a).eq hb
  exact ⟨a, ha⟩

/-- What follows and cannot fail leaves an operation atomic. -/
theorem Atomic.bind {o : Operation γ α} {f : α → Operation γ β} (ho : Atomic o)
    (hf : ∀ a r, ∃ b, (f a r).1 = .ok b) : Atomic (o >>= f) := by
  intro r r' e h
  rcases bind_eq_error.1 h with h | ⟨a, r₁, -, h⟩
  · exact ho r r' e h
  · obtain ⟨b, hb⟩ := hf a r₁
    rw [h] at hb
    cases hb

theorem looks_ofExcept (e : Except Failure α) : Looks (ofExcept e : Operation γ α) := fun _ => rfl

theorem looks_checkRole (role : String) : Looks (checkRole role : Operation γ Unit) := by
  intro r
  rcases checkRole_cases role r with ⟨e, h⟩ | h <;> rw [h]

theorem atomic_commit (t : Transaction α) : Atomic (commit t : Operation γ α) := by
  intro r r' f h
  unfold commit at h
  rcases ht : r.store.transact t with ⟨e | a, st⟩
  · rw [ht] at h
    cases h
    rw [Transaction.transact_eq_error ht]
  · rw [ht] at h
    cases h

section

variable [SchemaCache γ]

theorem looks_schemaOf (source : String) : Looks (schemaOf source : Operation γ Schema) := by
  intro r
  rcases schemaOf_cases source r with ⟨e, h⟩ | ⟨σ, -, h⟩ <;> rw [h]

theorem looks_requireTable (source table : String) :
    Looks (requireTable source table : Operation γ Unit) := by
  intro r
  rcases requireTable_cases source table r with ⟨e, h⟩ | ⟨σ, -, -, h⟩ <;> rw [h]

theorem atomic_track (source table : String) : Atomic (track source table : Operation γ Unit) :=
  (looks_requireTable source table).bind fun _ => atomic_commit _

end

/-- **A write that cannot be kept leaves no trace**, if a write that invalidates everything only removes
definitions. -/
theorem atomic_apply {invalidation : Invalidation} {write : Transaction α}
    (hw : invalidation = .full → ∀ st a st', write st = .ok (a, st') →
      st'.permissions.toList ⊆ st.permissions.toList) :
    Atomic (apply invalidation write : Operation PermissionCache (α × List Inconsistency)) := by
  intro r r' f h
  unfold apply at h
  rcases hwrite : write r.store with e | ⟨a, st⟩
  · simp only [hwrite] at h
    cases h
    rfl
  rcases hc : SchemaCache.rebuild r.cache st.view invalidation with ⟨e | xs, c⟩
  · obtain ⟨rfl, hcause⟩ := PermissionCache.rebuild_eq_error.1 hc
    simp only [hwrite, hc] at h
    cases h
    by_cases hcode : f.code = .storage
    · rw [recover_of_storage hcode]
      -- only a scan of everything can fail for the sake of the storage
      rcases hcause with ⟨i, -, hd⟩ | ⟨hfull, hd⟩
      · exact absurd hcode (Store.code_of_definition? hd)
      · exact congrArg (Registry.mk r.store)
          (PermissionCache.rebuild_full_of_subset r.cache (hw hfull _ a st hwrite) hd)
    · exact recover_of_ne_storage hcode _
  · simp only [hwrite, hc] at h
    cases h

/-- What is left of a write: nothing, or what was written and the cache that was rebuilt on it. -/
theorem apply_cases (invalidation : Invalidation) (write : Transaction α)
    (hw : invalidation = .full → ∀ st a st', write st = .ok (a, st') →
      st'.permissions.toList ⊆ st.permissions.toList) (r : Registry PermissionCache) :
    (apply invalidation write r).2 = r ∨ ∃ a st xs c, write r.store = .ok (a, st) ∧
      r.cache.rebuild st.view invalidation = (.ok xs, c) ∧ (apply invalidation write r).2 = ⟨st, c⟩ := by
  rcases h : apply invalidation write r with ⟨f | x, r'⟩
  · exact .inl (atomic_apply hw r r' f h)
  · obtain ⟨st, c, hwrite, hc, rfl⟩ := apply_eq_ok.1 h
    exact .inr ⟨x.1, st, x.2, c, hwrite, hc, rfl⟩

/-! ## Commands -/

theorem atomic_create (source table role : String) (clause : Clause) (comment : Option String) :
    Atomic (create source table role clause comment : Operation PermissionCache Outcome) :=
  (looks_checkRole role).bind fun _ => (looks_requireTable source table).bind fun _ =>
    (atomic_apply (by nofun)).bind fun _ _ => ⟨_, rfl⟩

theorem atomic_drop (i : PermissionId) : Atomic (drop i : Operation PermissionCache Outcome) :=
  (looks_requireTable i.source i.table).bind fun _ =>
    (atomic_apply fun _ _ _ _ h => dropped_subset h).bind fun _ _ => ⟨_, rfl⟩

theorem atomic_setComment (i : PermissionId) (comment : Option String) :
    Atomic (setComment i comment : Operation PermissionCache Outcome) :=
  (looks_requireTable i.source i.table).bind fun _ => (atomic_apply (by nofun)).bind fun _ _ => ⟨_, rfl⟩

theorem atomic_untrack (source table : String) :
    Atomic (untrack source table : Operation PermissionCache (List PermissionId)) :=
  (looks_schemaOf source).bind fun _ => (atomic_apply fun _ _ _ _ h => untracked_subset h).bind fun _ _ =>
    ⟨_, rfl⟩

/-- **A command that fails leaves no trace.** -/
theorem atomic_command (c : Command) : Atomic (c.run : Operation PermissionCache Json) := by
  cases c with
  | create _ source table role clause comment =>
    exact (atomic_create source table role clause comment).bind fun _ _ => ⟨_, rfl⟩
  | drop i => exact (atomic_drop i).bind fun _ _ => ⟨_, rfl⟩
  | setComment i comment => exact (atomic_setComment i comment).bind fun _ _ => ⟨_, rfl⟩
  | track source table => exact (atomic_track source table).bind fun _ _ => ⟨_, rfl⟩
  | untrack source table => exact (atomic_untrack source table).bind fun _ _ => ⟨_, rfl⟩

/-- Nor does one that cannot be read. -/
theorem atomic_single (doc : Json) : Atomic ((Script.single doc).run : Operation PermissionCache Json) := by
  rw [Script.run]
  exact (looks_ofExcept _).bind atomic_command

end Operation

end TableAccess
