import TableAccess.Proofs.Command.Documents
import TableAccess.Proofs.Registry.Operation

/-!
# Runs of a registry

A registry is changed by command documents, by giving its sources other schemas, and by rebuilding its
cache. A *watched* cache is one that also remembers whether everything has been compiled since a source
last got another schema; watching changes nothing.

* `Event.run`: one change. `Watched`: the watched cache.
* `Operation.Agrees`: an operation does the same on a cache and on its image.
* `Event.foldl_watched`: **a run with a watched cache is the run with the cache itself.**
-/

namespace TableAccess

/-- What happens to a registry. -/
inductive Event where
  /-- A command document is run, whatever it holds. -/
  | command (doc : Json)
  | setBackend (source : String) (σ : Schema)
  /-- The cache is rebuilt on the store. -/
  | rebuild

/-- **One change of a registry**, where `set` gives a source of the cache another schema. -/
def Event.run {γ : Type} [SchemaCache γ] [Engine] (set : γ → String → Schema → γ) (r : Registry γ) :
    Event → Registry γ
  | command doc => (runCommand doc r).2
  | setBackend source σ => { r with cache := set r.cache source σ }
  | rebuild => { r with cache := (SchemaCache.rebuild r.cache r.store.view .full).2 }

/-- A document that is no list of commands is run as one command. -/
theorem Event.run_single {γ : Type} [SchemaCache γ] {set : γ → String → Schema → γ} {doc : Json}
    (h : Script.isList doc = false) (r : Registry γ) :
    (Event.command doc).run set r = ((Script.single doc).run r).2 := by
  rw [Event.run, runCommand, Script.ofJson_of_not_isList h]

/-- A cache that remembers whether it is fresh: whether a rebuild of everything has succeeded since a
source last got another schema. -/
structure Watched where
  cache : PermissionCache
  fresh : Bool

namespace Watched

/-- Looks up what was invalidated; a rebuild of everything that succeeds makes the cache fresh. -/
def rebuild (w : Watched) (view : View) (invalidation : Invalidation) :
    Except Failure (List Inconsistency) × Watched :=
  let r := w.cache.rebuild view invalidation
  (r.1, ⟨r.2, w.fresh || (invalidation == .full && r.1.isOk)⟩)

instance : SchemaCache Watched where
  schema? w source := w.cache.backends.get? source
  rebuild := rebuild

theorem rebuild_of_ne_full {invalidation : Invalidation} (h : invalidation ≠ .full) (w : Watched)
    (view : View) : w.rebuild view invalidation =
      ((w.cache.rebuild view invalidation).1, ⟨(w.cache.rebuild view invalidation).2, w.fresh⟩) := by
  simp [rebuild, h]

theorem rebuild_full {w : Watched} {view : View} {xs : List Inconsistency} {c : PermissionCache}
    (h : w.cache.rebuild view .full = (.ok xs, c)) : w.rebuild view .full = (.ok xs, ⟨c, true⟩) := by
  simp [rebuild, h, Except.isOk, Except.toBool]

/-- Gives a source another schema, after which the cache is not fresh. -/
def setBackend (w : Watched) (source : String) (σ : Schema) : Watched :=
  ⟨w.cache.setBackend source σ, false⟩

end Watched

/-! ## Watching changes nothing -/

/-- A map of caches that rebuilding does not tell apart. -/
structure SchemaCache.Map {γ γ' : Type} [SchemaCache γ] [SchemaCache γ'] (h : γ → γ') : Prop where
  schema? : ∀ c source, SchemaCache.schema? (h c) source = SchemaCache.schema? c source
  rebuild : ∀ c view invalidation, SchemaCache.rebuild (h c) view invalidation =
    ((SchemaCache.rebuild c view invalidation).1, h (SchemaCache.rebuild c view invalidation).2)

theorem Watched.map : SchemaCache.Map Watched.cache := ⟨fun _ _ => rfl, fun _ _ _ => rfl⟩

/-- The registry with the image of its cache. -/
def Registry.map {γ γ' : Type} (h : γ → γ') (r : Registry γ) : Registry γ' := ⟨r.store, h r.cache⟩

@[simp] theorem Registry.store_map {γ γ' : Type} (h : γ → γ') (r : Registry γ) :
    (r.map h).store = r.store := rfl

@[simp] theorem Registry.cache_map {γ γ' : Type} (h : γ → γ') (r : Registry γ) :
    (r.map h).cache = h r.cache := rfl

namespace Operation

variable {γ γ' α β : Type} {h : γ → γ'}

/-- The operations `o` and `o'` do the same, one on a cache and the other on its image. -/
def Agrees (h : γ → γ') (o : Operation γ α) (o' : Operation γ' α) : Prop :=
  ∀ r, o' (r.map h) = ((o r).1, (o r).2.map h)

namespace Agrees

theorem bind {o : Operation γ α} {o' : Operation γ' α} {f : α → Operation γ β} {f' : α → Operation γ' β}
    (ho : Agrees h o o') (hf : ∀ a, Agrees h (f a) (f' a)) : Agrees h (o >>= f) (o' >>= f') := by
  intro r
  rw [bind_apply, bind_apply, ho r]
  rcases o r with ⟨_ | a, r'⟩
  · rfl
  · exact hf a r'

theorem pure (a : α) : Agrees h (Pure.pure a) (Pure.pure a) := fun _ => rfl

theorem ofExcept (e : Except Failure α) : Agrees h (Operation.ofExcept e) (Operation.ofExcept e) :=
  fun _ => rfl

theorem within {o : Operation γ α} {o' : Operation γ' α} (ho : Agrees h o o') (segment : String) :
    Agrees h (Operation.within segment o) (Operation.within segment o') := by
  intro r
  simp only [Operation.within, ho r]
  rcases o r with ⟨_ | _, _⟩ <;> rfl

theorem commit (t : Transaction α) : Agrees h (Operation.commit t) (Operation.commit t) := by
  intro r
  simp only [Operation.commit, Registry.map]

theorem checkRole (role : String) : Agrees h (Operation.checkRole role) (Operation.checkRole role) := by
  unfold Operation.checkRole
  split
  · exact fun _ => rfl
  · split <;> exact fun _ => rfl

variable [SchemaCache γ] [SchemaCache γ']

theorem schemaOf (hh : SchemaCache.Map h) (source : String) :
    Agrees h (Operation.schemaOf source) (Operation.schemaOf source) := by
  intro r
  rw [schemaOf_apply, schemaOf_apply, Registry.map, hh.schema?]
  cases SchemaCache.schema? r.cache source <;> rfl

theorem requireTable (hh : SchemaCache.Map h) (source table : String) :
    Agrees h (Operation.requireTable source table) (Operation.requireTable source table) := by
  refine (schemaOf hh source).bind fun σ => ?_
  split
  · exact pure ()
  · exact fun _ => rfl

theorem recover (hh : SchemaCache.Map h) (f : Failure) (r : Registry γ) :
    Operation.recover f (r.map h) = (Operation.recover f r).map h := by
  simp only [Operation.recover, Registry.map, hh.rebuild]
  split <;> rfl

theorem apply (hh : SchemaCache.Map h) (invalidation : Invalidation) (write : Transaction α) :
    Agrees h (Operation.apply invalidation write) (Operation.apply invalidation write) := by
  intro r
  simp only [Operation.apply, Registry.store_map, Registry.cache_map, hh.rebuild]
  cases write r.store with
  | error f => rfl
  | ok p =>
    rcases hc : SchemaCache.rebuild r.cache p.2.view invalidation with ⟨f | report, c⟩
    · simp only [hc]
      exact congrArg (Prod.mk _) (recover hh f ⟨r.store, c⟩)
    · simp only [hc]
      rfl

theorem create (hh : SchemaCache.Map h) (source table role : String) (clause : Clause)
    (comment : Option String) : Agrees h (Operation.create source table role clause comment)
      (Operation.create source table role clause comment) :=
  (checkRole role).bind fun _ => (requireTable hh source table).bind fun _ =>
    (apply hh _ _).bind fun _ => pure _

theorem drop (hh : SchemaCache.Map h) (i : PermissionId) :
    Agrees h (Operation.drop i) (Operation.drop i) :=
  (requireTable hh i.source i.table).bind fun _ => (apply hh _ _).bind fun _ => pure _

theorem setComment (hh : SchemaCache.Map h) (i : PermissionId) (comment : Option String) :
    Agrees h (Operation.setComment i comment) (Operation.setComment i comment) :=
  (requireTable hh i.source i.table).bind fun _ => (apply hh _ _).bind fun _ => pure _

theorem track (hh : SchemaCache.Map h) (source table : String) :
    Agrees h (Operation.track source table) (Operation.track source table) :=
  (requireTable hh source table).bind fun _ => commit _

theorem untrack (hh : SchemaCache.Map h) (source table : String) :
    Agrees h (Operation.untrack source table) (Operation.untrack source table) :=
  (schemaOf hh source).bind fun _ => (apply hh _ _).bind fun _ => pure _

theorem command (hh : SchemaCache.Map h) (c : Command) : Agrees h c.run c.run := by
  cases c with
  | create _ source table role clause comment =>
    exact (create hh source table role clause comment).bind fun _ => pure _
  | drop i => exact (drop hh i).bind fun _ => pure _
  | setComment i comment => exact (setComment hh i comment).bind fun _ => pure _
  | track source table => exact (track hh source table).bind fun _ => pure _
  | untrack source table => exact (untrack hh source table).bind fun _ => pure _

mutual

theorem script (hh : SchemaCache.Map h) : (s : Script) → Agrees h s.run s.run
  | .single doc => by
    rw [Script.run, Script.run]
    exact (ofExcept (Command.read doc)).bind fun c => command hh c
  | .bulk scripts => by
    rw [Script.run, Script.run]
    exact (scriptAll hh 0 scripts).bind fun _ => pure _

theorem scriptAll (hh : SchemaCache.Map h) : (n : Nat) → (scripts : List Script) →
    Agrees h (Script.runAll n scripts) (Script.runAll n scripts)
  | _, [] => by
    rw [Script.runAll, Script.runAll]
    exact pure []
  | n, s :: rest => by
    rw [Script.runAll, Script.runAll]
    exact ((script hh s).within _).bind fun _ => (scriptAll hh (n + 1) rest).bind fun _ => pure _

end

end Agrees

end Operation

/-- **A run with a watched cache is the run with the cache itself.** -/
theorem Event.foldl_watched (es : List Event) (r : Registry Watched) :
    (es.foldl (Event.run Watched.setBackend) r).map Watched.cache =
      es.foldl (Event.run PermissionCache.setBackend) (r.map Watched.cache) := by
  induction es generalizing r with
  | nil => rfl
  | cons e es ih =>
    rw [List.foldl_cons, List.foldl_cons, ih]
    congr 1
    cases e with
    | command doc => exact (congrArg (·.2) (Operation.Agrees.script Watched.map (Script.ofJson doc) r)).symm
    | setBackend source σ => rfl
    | rebuild => rfl

end TableAccess
