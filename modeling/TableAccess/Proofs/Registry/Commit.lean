import TableAccess.Proofs.Registry.Creation
import TableAccess.Proofs.Registry.Replay

/-!
# Commands that fail, and commits that fail

Whether a commit succeeds is for the engine to say. If all of them do, a command that fails leaves no trace.
Where one fails, the store is as it was; but the cache was rebuilt on what is not kept, so it is rebuilt once
more, on what is. So an engine can stop a command, but it cannot leave a registry that would not be left
without it.

* `PermissionCache.unchanged_of_failure`: **a command that fails leaves no trace**, if commits succeed.
* `Operation.Recovers`: on any engine an operation does what it does on a reliable one, or a commit fails and
  at most a rebuild is left behind.
* `PermissionCache.recovers_runCommand`: **a command whose commit fails leaves no trace but a rebuild.**
* `PermissionCache.runCommand_keeps_of_engine`: what is kept on a reliable engine is kept on any.
* `Event.reaches_of_engines`: **whatever engines a run is given, one on a reliable engine leaves the same.**
-/

namespace TableAccess

/-! ## Engines whose commits succeed -/

/-- The command of a definition fails as the first thing says that stands in its way. -/
theorem Registry.runCommand_refuses {r : Registry PermissionCache} {source table : String} {d : Definition}
    (hd : d.clause.Free Number.IsSound) {code : ErrorCode} {path : List String}
    (h : r.refusal? ⟨source, table, d.role, d.kind⟩ d = some (code, path)) :
    Operation.Refuses (runCommand (d.command source table)) r code path := by
  obtain ⟨role, comment, clause⟩ := d
  obtain ⟨f, hf, hcode⟩ := Registry.create_refuses hd h
  refine ⟨f, ?_, hcode⟩
  rw [runCommand, Definition.command, Script.ofJson_of_not_isList (Export.isList_command source table _),
    Script.run_of_read_ok (Command.read_export source table hd)]
  exact Operation.bind_of_error hf

/-- **A command that fails leaves no trace.** Whatever a document holds that is not a list of commands, and
on whatever registry it is run, reachable or not: if it fails, the store and the cache are as they were. That
commits succeed is what the engine has to do for it. -/
theorem PermissionCache.unchanged_of_failure [Engine] (hcommits : Engine.Commits) {doc : Json}
    (hdoc : Script.isList doc = false) {r : Registry PermissionCache} {f : Failure}
    (h : (runCommand doc r).1 = .error f) : (runCommand doc r).2 = r := by
  obtain rfl := Engine.eq_reliable hcommits
  refine Operation.atomic_single doc r _ f (Prod.ext ?_ ?_) <;>
    rw [← Script.ofJson_of_not_isList hdoc]
  · exact h
  · rfl

/-- A permission that is there already is created; and on an empty store one for a role whose name is too long,
one on a table and for a role whose names are too long for one key, and one whose filter is nested too deeply to
be read again. -/
theorem PermissionCache.unchanged_of_failure_authors :
    let long : Nat → String := fun n => String.ofList (List.replicate n 'r')
    let schema : String → Schema := fun table => (Catalog.ofTables [⟨table, [⟨"id", .integer⟩], [], []⟩]).schema
    let own : Json := .obj [("id", .obj [("_eq", .int 1)])]
    let nested : Json := (fun j => Json.obj [("_not", j)])^[130] own
    let create : String → String → String → Json → Json := fun source table role filter =>
      Definition.command source table ⟨role, none, .delete ⟨filter⟩⟩
    let start : Registry PermissionCache :=
      ⟨.empty, .ofBackends (.ofList [("default", schema "author"), ("other", schema (long 255))])⟩
    let r := (runCommand (create "default" "author" "user" own) start).2
    let runs : List (Registry PermissionCache × Json × ErrorCode) :=
      [(r, create "default" "author" "user" own, .alreadyExists),
        (start, create "default" "author" (long 256) own, .validationFailed),
        (start, create "other" (long 255) (long 255) own, .storage),
        (start, create "default" "author" "editor" nested, .invalidCommand)]
    Engine.Commits ∧ ∀ x ∈ runs, Script.isList x.2.1 = false ∧
      (∃ f, (runCommand x.2.1 x.1).1 = .error f ∧ f.code = x.2.2) ∧ (runCommand x.2.1 x.1).2 = x.1 := by
  intro long schema own nested create start r runs
  have hlong : ∀ n, (Key.bytes (long n)).length = n := Key.length_bytes_replicate rfl
  have hfree : ∀ n, (Clause.delete ⟨(fun j => Json.obj [("_not", j)])^[n] own⟩).Free Number.IsSound := by
    intro n
    refine DeleteClause.Free.mk ?_
    induction n with
    | zero =>
      refine ⟨by simp [own, Json.int, Json.IsCanonical, Json.HaveCanonical], fun m hm => ?_⟩
      obtain rfl : m = .int 1 := List.mem_singleton.1 hm
      exact (by decide : Number.isInteger 1 = true)
    | succ n ih =>
      rw [Function.iterate_succ_apply']
      exact ⟨by simpa [Json.IsCanonical, Json.HaveCanonical] using ih.canonical,
        by simpa [Json.allNumbers_obj] using ih.numbers⟩
  have hstored : r.refusal? ⟨"default", "author", "user", .delete⟩ ⟨"user", none, .delete ⟨own⟩⟩ =
      some (.alreadyExists, []) := by
    simp only [r, runCommand, create, Definition.command,
      Script.ofJson_of_not_isList (Export.isList_command _ _ _)]
    decide +kernel
  have hname : start.refusal? ⟨"default", "author", long 256, .delete⟩ ⟨long 256, none, .delete ⟨own⟩⟩ =
      some (.validationFailed, []) := by
    decide +kernel
  have hkey : start.refusal? ⟨"other", long 255, long 255, .delete⟩ ⟨long 255, none, .delete ⟨own⟩⟩ =
      some (.storage, []) := by
    have hrole : ¬ (long 255 = "" ∨ long 255 = adminRole) := by
      rintro (h | h) <;> exact absurd (congrArg (fun s => (Key.bytes s).length) h) (by
        rw [hlong]; decide +kernel)
    have htable : start.HasTable "other" (long 255) := by
      refine ⟨schema (long 255), ?_, ?_⟩
      · change ((SortedMap.empty.insert "default" _).insert "other" (schema (long 255))).get? "other" = _
        simp
      · simp [schema, Catalog.schema, Catalog.ofTables, Catalog.add, Catalog.table?]
    have hnames : ¬ ∃ name ∈ ["other", long 255, long 255], ¬ Key.NameFits name := by
      have hsource : Key.NameFits "other" := by decide +kernel
      have hname : Key.NameFits (long 255) := (hlong 255).le
      simp [hsource, hname]
    have hfits : ¬ Key.Fits (Key.ofId ⟨"other", long 255, long 255, .delete⟩) := by
      intro hfits
      have hlength := (Key.fits_ofId_iff.1 hfits).2
      have hmax : Key.maxLength = 511 := rfl
      simp only [hlong] at hlength
      omega
    unfold Registry.refusal?
    rw [if_neg hrole, if_neg (not_not.2 htable), if_neg hnames, if_neg Store.not_has_empty, if_pos hfits]
  have hdeep : start.refusal? ⟨"default", "author", "editor", .delete⟩ ⟨"editor", none, .delete ⟨nested⟩⟩ =
      some (.invalidCommand, []) := by
    decide +kernel
  have hsingle : ∀ x ∈ runs, Script.isList x.2.1 = false := by
    simp [runs, create, Definition.command, Export.isList_command]
  have hfails : ∀ x ∈ runs, Operation.Refuses (runCommand x.2.1) x.1 x.2.2 [] := by
    simp only [runs, List.forall_mem_cons]
    exact ⟨Registry.runCommand_refuses (hfree 0) hstored, Registry.runCommand_refuses (hfree 0) hname,
      Registry.runCommand_refuses (hfree 0) hkey, Registry.runCommand_refuses (hfree 130) hdeep,
      List.forall_mem_nil _⟩
  refine ⟨fun _ => rfl, fun x hx => ?_⟩
  obtain ⟨f, hf, hcode, -⟩ := hfails x hx
  have hf : (runCommand x.2.1 x.1).1 = .error f := congrArg Prod.fst hf
  exact ⟨hsingle x hx, ⟨f, hf, hcode⟩, PermissionCache.unchanged_of_failure (fun _ => rfl) (hsingle x hx) hf⟩

/-! ## Engines that report a failure -/

/-- **The engine reports a failure**: it is what a commit that fails is answered with. -/
def Engine.Reports (E : Engine) (f : Failure) : Prop :=
  ∃ st text, E.commit st = .error text ∧ f = ⟨[], .storage (.reported text)⟩

/-- A commit keeps what was written, or the engine reports why not. -/
theorem Store.commit_cases (E : Engine) (st : Store) :
    @commit E st = .ok st ∨ ∃ f, E.Reports f ∧ @commit E st = .error f := by
  unfold commit
  rcases hcommit : E.commit st with text | _
  · exact .inr ⟨_, ⟨st, text, hcommit, rfl⟩, rfl⟩
  · exact .inl rfl

/-- A failure that is reported is the storage's fault. -/
theorem Engine.Reports.code {E : Engine} {f : Failure} (h : E.Reports f) : f.code = .storage := by
  obtain ⟨_, _, -, rfl⟩ := h
  rfl

/-- **Everything is compiled again** on what is stored, whatever the cache had taken in. -/
def Registry.Resynced (r r' : Registry PermissionCache) : Prop :=
  ∃ c : PermissionCache, c.backends = r.cache.backends ∧ r' = ⟨r.store, (c.rebuild r.store.view .full).2⟩

/-- What a cache had taken in makes no difference, if all that is stored can be read. -/
theorem Registry.Resynced.eq_rebuild {r r' : Registry PermissionCache} (h : r.Resynced r')
    {ds : List (PermissionId × Definition)} (hds : r.store.definitions = .ok ds) :
    r' = Event.rebuild.run PermissionCache.setBackend r := by
  obtain ⟨c, hc, rfl⟩ := h
  have hview : r.store.view.definitions = .ok ds := hds
  have hrebuild : ∀ c : PermissionCache, (c.rebuild r.store.view .full).2 = c.refreshAll ds := by
    intro c
    rw [PermissionCache.rebuild, hview]
  show Registry.mk _ _ = Registry.mk r.store (r.cache.rebuild r.store.view .full).2
  rw [hrebuild, hrebuild, PermissionCache.refreshAll, PermissionCache.refreshAll, hc]

/-! ## Operations -/

namespace Operation

variable {α β : Type}

/-- **On any engine the operation does what it does on a reliable one, or a commit fails**: then it fails with
what the engine reports, and nothing is changed but that everything may have been compiled again. -/
def Recovers (o : [Engine] → Operation PermissionCache α) : Prop :=
  ∀ (E : Engine) (r : Registry PermissionCache), @o E r = @o .reliable r ∨
    ∃ f r', E.Reports f ∧ @o E r = (.error f, r') ∧ (r' = r ∨ r.Resynced r')

/-- A look at the registry asks nothing of the engine. -/
theorem Looks.recovers_bind {o : Operation PermissionCache α} (ho : Looks o)
    {f : [Engine] → α → Operation PermissionCache β} (hf : ∀ a, Recovers (f a)) :
    Recovers (o >>= f) := by
  intro E r
  -- puts the engine in for the one that `o >>= f` is a function of
  beta_reduce
  rcases hr : o r with ⟨e | a, r₁⟩
  · exact .inl (by rw [bind_of_error hr, bind_of_error hr])
  · obtain rfl := ho.eq hr
    rw [bind_of_ok hr, bind_of_ok hr]
    exact hf a E r₁

/-- What follows and asks nothing of the engine is left out where a commit fails. -/
theorem Recovers.bind {o : [Engine] → Operation PermissionCache α} (ho : Recovers o)
    (f : α → Operation PermissionCache β) : Recovers (o >>= f) := by
  intro E r
  beta_reduce
  rcases ho E r with h | ⟨e, r', he, h, hr'⟩
  · have h : @o E r = @o .reliable r := h
    exact .inl (by rw [bind_apply, bind_apply, h])
  · exact .inr ⟨e, r', he, bind_of_error h, hr'⟩

/-- Where only the store is written, a commit that fails leaves everything as it was. -/
theorem recovers_commit (t : Transaction α) : Recovers (commit t) := by
  intro E r
  beta_reduce
  unfold commit Store.transact
  rcases t r.store with e | ⟨a, st⟩
  · exact .inl rfl
  rcases Store.commit_cases E st with hk | ⟨f, hf, hk⟩
  · exact .inl (by simp only [hk]; rfl)
  · exact .inr ⟨f, r, hf, by simp only [hk], .inl rfl⟩

/-- **A commit that fails behind a rebuild** is followed by a rebuild on what is kept. -/
theorem recovers_apply (invalidation : Invalidation) (write : Transaction α) :
    Recovers (apply invalidation write) := by
  intro E r
  beta_reduce
  unfold apply
  rcases write r.store with e | ⟨a, st⟩
  · exact .inl rfl
  have hbackends := PermissionCache.backends_rebuild r.cache st.view invalidation
  rcases hc : SchemaCache.rebuild r.cache st.view invalidation with ⟨e | xs, c⟩
  · exact .inl (by simp only [hc])
  rcases Store.commit_cases E st with hk | ⟨f, hf, hk⟩
  · exact .inl (by simp only [hc, hk]; rfl)
  · have hcache : r.cache.rebuild st.view invalidation = (.ok xs, c) := hc
    rw [hcache] at hbackends
    have hresynced : r.Resynced (recover f ⟨r.store, c⟩) := ⟨c, hbackends, recover_of_storage hf.code _⟩
    exact .inr ⟨f, _, hf, by simp only [hc, hk], .inr hresynced⟩

theorem recovers_create (source table role : String) (clause : Clause) (comment : Option String) :
    Recovers (create source table role clause comment) :=
  (looks_checkRole role).recovers_bind fun _ => (looks_requireTable source table).recovers_bind fun _ =>
    (recovers_apply _ _).bind _

theorem recovers_drop (i : PermissionId) : Recovers (drop i) :=
  (looks_requireTable i.source i.table).recovers_bind fun _ => (recovers_apply _ _).bind _

theorem recovers_setComment (i : PermissionId) (comment : Option String) : Recovers (setComment i comment) :=
  (looks_requireTable i.source i.table).recovers_bind fun _ => (recovers_apply _ _).bind _

theorem recovers_track (source table : String) : Recovers (track source table) :=
  (looks_requireTable source table).recovers_bind fun _ => recovers_commit _

theorem recovers_untrack (source table : String) : Recovers (untrack source table) :=
  (looks_schemaOf source).recovers_bind fun _ => (recovers_apply _ _).bind _

theorem recovers_command (c : Command) : Recovers c.run := by
  cases c with
  | create _ source table role clause comment => exact (recovers_create source table role clause comment).bind _
  | drop i => exact (recovers_drop i).bind _
  | setComment i comment => exact (recovers_setComment i comment).bind _
  | track source table => exact (recovers_track source table).bind _
  | untrack source table => exact (recovers_untrack source table).bind _

theorem recovers_single (doc : Json) : Recovers (Script.single doc).run := by
  simp only [Script.run]
  exact (looks_ofExcept (Command.read doc)).recovers_bind recovers_command

end Operation

/-- **A command whose commit fails leaves no trace but a rebuild.** Whatever a document holds that is not a list
of commands, and whatever engine it is run on: it does what it does on a reliable engine, or it fails with what
the engine reports of a commit, and leaves the registry as it was or as a rebuild makes it. -/
theorem PermissionCache.recovers_runCommand {doc : Json} (hdoc : Script.isList doc = false)
    {r : Registry PermissionCache} {ds : List (PermissionId × Definition)}
    (hds : r.store.definitions = .ok ds) (E : Engine) :
    @runCommand _ _ E doc r = @runCommand _ _ .reliable doc r ∨
      ∃ f, E.Reports f ∧ (@runCommand _ _ E doc r = (.error f, r) ∨
        @runCommand _ _ E doc r = (.error f, Event.rebuild.run PermissionCache.setBackend r)) := by
  unfold runCommand
  rw [Script.ofJson_of_not_isList hdoc]
  rcases Operation.recovers_single doc E r with h | ⟨f, r', hf, h, rfl | hr'⟩
  · exact .inl h
  · exact .inr ⟨f, hf, .inl h⟩
  · exact .inr ⟨f, hf, .inr (hr'.eq_rebuild hds ▸ h)⟩

/-- **What commands and rebuilds keep on a reliable engine, a command document keeps on any**, if with it all
that is stored can be read. -/
theorem PermissionCache.runCommand_keeps_of_engine {N : Number → Prop} {P : Registry PermissionCache → Prop}
    (hread : ∀ r, P r → ∃ ds, r.store.definitions = .ok ds)
    (hrebuild : ∀ r, P r → P (Event.rebuild.run setBackend r))
    (hcommand : ∀ doc r, doc.AllNumbers N → P r → P (@runCommand _ _ .reliable doc r).2)
    (E : Engine) {doc : Json} (hdoc : doc.AllNumbers N) {r : Registry PermissionCache} (hr : P r) :
    P (@runCommand _ _ E doc r).2 := by
  refine runCommand_keeps_of_single (fun doc r hsingle hdoc hr => ?_) hdoc hr
  obtain ⟨ds, hds⟩ := hread r hr
  rcases recovers_runCommand hsingle hds E with h | ⟨f, -, h | h⟩
  · exact h ▸ hcommand doc r hdoc hr
  · exact h ▸ hr
  · exact h ▸ hrebuild r hr

/-- **The cache stays faithful**, whatever the engine does. -/
theorem Registry.Faithful.runCommand_of_engine {backends : SortedMap String Schema}
    {r : Registry PermissionCache} (h : r.Faithful backends) (E : Engine) {doc : Json}
    (hdoc : doc.AllNumbers Number.IsSound) : (@TableAccess.runCommand _ _ E doc r).2.Faithful backends :=
  PermissionCache.runCommand_keeps_of_engine
    (fun _ h => let ⟨_, hl, _⟩ := h.legible.exists_contents; ⟨_, hl⟩)
    (fun _ h => h.rebuild) (fun _ _ hdoc h => h.runCommand hdoc) E hdoc h

/-! ## Runs -/

namespace Event

/-- **A run on a reliable engine leaves the registry**, if it starts with `start` and the numbers of its
documents are such as `N` says. -/
def Reaches (N : Number → Prop) (start r : Registry PermissionCache) : Prop :=
  ∃ es : List Event, (∀ doc, .command doc ∈ es → doc.AllNumbers N) ∧
    es.foldl (Event.run PermissionCache.setBackend) start = r

variable {N : Number → Prop} {start r : Registry PermissionCache}

theorem Reaches.refl : Reaches N start start := ⟨[], fun _ h => absurd h List.not_mem_nil, rfl⟩

theorem Reaches.event (h : Reaches N start r) {e : Event} (he : ∀ doc, e = .command doc → doc.AllNumbers N) :
    Reaches N start (e.run PermissionCache.setBackend r) := by
  obtain ⟨es, hes, rfl⟩ := h
  refine ⟨es ++ [e], fun doc hdoc => ?_, by rw [List.foldl_append]; rfl⟩
  rcases List.mem_append.1 hdoc with hdoc | hdoc
  · exact hes doc hdoc
  · exact he doc (List.mem_singleton.1 hdoc).symm

/-- What a run leaves can be read. -/
theorem Reaches.definitions (hN : ∀ n, N n → n.IsSound) {c : PermissionCache}
    (h : Reaches N ⟨.empty, c⟩ r) : ∃ ds, r.store.definitions = .ok ds := by
  obtain ⟨es, hes, rfl⟩ := h
  obtain ⟨l, hl, -⟩ := ((Registry.Anchored.empty c).run fun doc hdoc n hn =>
    hN n (hes doc hdoc n hn)).legible.exists_contents
  exact ⟨_, hl⟩

/-- A command document leaves what a run leaves, on any engine: its commands are run one after another, and
one whose commit fails leaves nothing but a rebuild. -/
theorem Reaches.runCommand (hN : ∀ n, N n → n.IsSound) {c : PermissionCache} (h : Reaches N ⟨.empty, c⟩ r)
    (E : Engine) {doc : Json} (hdoc : doc.AllNumbers N) :
    Reaches N ⟨.empty, c⟩ (@runCommand _ _ E doc r).2 :=
  PermissionCache.runCommand_keeps_of_engine (fun _ h => h.definitions hN)
    (fun _ h => h.event (e := .rebuild) nofun)
    (fun doc _ hdoc h => h.event (e := .command doc) fun _ he => (Event.command.inj he) ▸ hdoc) E hdoc h

/-- **Whatever engines a run is given, one on a reliable engine leaves the same.** Every event of the run has an
engine of its own, which may let any commit fail. -/
theorem reaches_of_engines (hN : ∀ n, N n → n.IsSound) (c : PermissionCache) {es : List (Engine × Event)}
    (hes : ∀ E doc, (E, .command doc) ∈ es → doc.AllNumbers N) :
    Reaches N ⟨.empty, c⟩ (es.foldl (fun r x => @Event.run _ _ x.1 PermissionCache.setBackend r x.2)
      ⟨.empty, c⟩) := by
  induction es using List.reverseRecOn with
  | nil => exact .refl
  | append_singleton es x ih =>
    rw [List.foldl_append]
    have hr := ih fun E doc hmem => hes E doc (List.mem_append_left _ hmem)
    obtain ⟨E, e⟩ := x
    cases e with
    | command doc =>
      exact hr.runCommand hN E (hes E doc (List.mem_append_right _ List.mem_cons_self))
    | setBackend source σ => exact hr.event (e := .setBackend source σ) nofun
    | rebuild => exact hr.event (e := .rebuild) nofun

end Event

end TableAccess
