import TableAccess.Proofs.Registry.Failure
import TableAccess.Proofs.Registry.Run

/-!
# What a run does with success

A command that fails leaves no trace, so what a run makes of a registry is told by its *deeds*: the commands
that succeed, in order, and the rebuilds of everything. Of a list of commands these are the ones up to the
first that fails.

* `Command.Writes`, `Command.invalidation?`, `Command.done_of_run`: **a command that succeeds has written, and
  has rebuilt the cache for what it makes stale.**
* `Script.deeds`, `Event.deedsAll`: the deeds of a script, and of a run.
* `Event.deedsAll_keep`: **what every deed keeps, a run keeps.**
-/

namespace TableAccess

/-! ## Commands that succeed -/

/-- What a command that succeeds makes stale in the cache. -/
def Command.invalidation? : Command → Option Invalidation
  | create _ source table role clause _ => some (.object ⟨source, table, role, clause.kind⟩)
  | drop _ => some .full
  | setComment i _ => some (.comment i)
  | track _ _ => none
  | untrack _ _ => some .full

/-- Whether a command that succeeds inserts a definition. -/
def Command.creates : Command → Bool
  | create .. => true
  | _ => false

/-- **What a command that succeeds writes.** -/
def Command.Writes (st st' : Store) : Command → Prop
  | create _ source table role clause comment =>
    Operation.created ⟨source, table, role, clause.kind⟩ ⟨role, comment, clause⟩ st = .ok ((), st')
  | drop i => Operation.dropped i st = .ok ((), st')
  | setComment i comment => Operation.commented i comment st = .ok ((), st')
  | track _ _ => ∃ tracked, st' = { st with tracked }
  | untrack source table => ∃ is, Operation.untracked source table st = .ok (is, st')

namespace Operation

variable {α β : Type} {r r' : Registry PermissionCache}

/-- An operation that succeeds has written, and has rebuilt the cache on what it has written. -/
theorem done_of_apply {invalidation : Invalidation} {write : Transaction α}
    {f : α × List Inconsistency → Operation PermissionCache β} (hf : ∀ x, Looks (f x)) {b : β}
    (h : (apply invalidation write >>= f) r = (.ok b, r')) :
    (∃ a, write r.store = .ok (a, r'.store)) ∧
      ∃ xs, r.cache.rebuild r'.store.view invalidation = (.ok xs, r'.cache) := by
  obtain ⟨x, happly⟩ := exists_of_bind_looks hf h
  obtain ⟨st, c, hw, hc, rfl⟩ := apply_eq_ok.1 happly
  exact ⟨⟨x.1, hw⟩, x.2, hc⟩

end Operation

/-- **A command that succeeds has written, and has rebuilt the cache for what it makes stale**; otherwise the
cache is as it was. -/
theorem Command.done_of_run {c : Command} {r r' : Registry PermissionCache} {reply : Json}
    (h : c.run r = (.ok reply, r')) :
    c.Writes r.store r'.store ∧
      match c.invalidation? with
      | none => r'.cache = r.cache
      | some invalidation => ∃ xs, r.cache.rebuild r'.store.view invalidation = (.ok xs, r'.cache) := by
  cases c with
  | create _ source table role clause comment =>
    obtain ⟨_, h⟩ := Operation.exists_of_bind_looks (fun _ _ => rfl) h
    obtain ⟨_, h⟩ := (Operation.looks_checkRole role).exists_of_bind h
    obtain ⟨_, h⟩ := (Operation.looks_requireTable source table).exists_of_bind h
    obtain ⟨⟨_, hw⟩, hc⟩ := Operation.done_of_apply (fun _ _ => rfl) h
    exact ⟨hw, hc⟩
  | drop i =>
    obtain ⟨_, h⟩ := Operation.exists_of_bind_looks (fun _ _ => rfl) h
    obtain ⟨_, h⟩ := (Operation.looks_requireTable i.source i.table).exists_of_bind h
    obtain ⟨⟨_, hw⟩, hc⟩ := Operation.done_of_apply (fun _ _ => rfl) h
    exact ⟨hw, hc⟩
  | setComment i comment =>
    obtain ⟨_, h⟩ := Operation.exists_of_bind_looks (fun _ _ => rfl) h
    obtain ⟨_, h⟩ := (Operation.looks_requireTable i.source i.table).exists_of_bind h
    obtain ⟨⟨_, hw⟩, hc⟩ := Operation.done_of_apply (fun _ _ => rfl) h
    exact ⟨hw, hc⟩
  | track source table =>
    obtain ⟨_, h⟩ := Operation.exists_of_bind_looks (fun _ _ => rfl) h
    obtain ⟨tracked, htracked⟩ := Operation.track_after source table r
    rw [h] at htracked
    obtain rfl : r' = _ := htracked
    exact ⟨⟨tracked, rfl⟩, rfl⟩
  | untrack source table =>
    obtain ⟨_, h⟩ := Operation.exists_of_bind_looks (fun _ _ => rfl) h
    obtain ⟨_, h⟩ := (Operation.looks_schemaOf source).exists_of_bind h
    exact Operation.done_of_apply (fun _ _ => rfl) h

/-! ## Deeds -/

/-- Something that is done to a registry with success. -/
inductive Deed where
  | command (c : Command)
  /-- Everything is compiled again. -/
  | rebuild

namespace Deed

/-- What a deed makes stale in the cache. -/
def invalidation? : Deed → Option Invalidation
  | command c => c.invalidation?
  | rebuild => some .full

/-- **Whether a permission is compiled**: it is created, or everything is compiled again. -/
def compiles (i : PermissionId) (d : Deed) : Bool :=
  d.invalidation? == some (.object i) || d.invalidation? == some .full

/-- Whether a definition is inserted. -/
def creates : Deed → Bool
  | command c => c.creates
  | rebuild => false

/-- **Whether the comment of a permission is changed.** -/
def comments (i : PermissionId) (d : Deed) : Bool := d.invalidation? == some (.comment i)

end Deed

namespace Script

variable {γ : Type} [SchemaCache γ]

mutual

/-- **The commands of a script that succeed**, in order: those up to the first that fails. -/
def deeds : Script → Registry γ → List Deed
  | .single doc, r =>
    match Command.read doc with
    | .ok c => if (c.run r).1.isOk then [.command c] else []
    | .error _ => []
  | .bulk scripts, r => deedsAll scripts r

/-- The commands of scripts that succeed, which are run one after another. -/
def deedsAll : List Script → Registry γ → List Deed
  | [], _ => []
  | s :: rest, r => deeds s r ++ if (s.run r).1.isOk then deedsAll rest (s.run r).2 else []

end

end Script

namespace Event

/-- What an event does with success. -/
def deeds (r : Registry PermissionCache) : Event → List Deed
  | command doc => (Script.ofJson doc).deeds r
  | setBackend _ _ => []
  | rebuild => if (r.cache.rebuild r.store.view .full).1.isOk then [.rebuild] else []

/-- **What a run does with success.** -/
def deedsAll (r : Registry PermissionCache) : List Event → List Deed
  | [] => []
  | e :: es => e.deeds r ++ deedsAll (e.run PermissionCache.setBackend r) es

end Event

/-! ## What every deed keeps -/

/-- Every command that succeeds keeps what is said of the deeds so far and the registry that they have left. -/
def Deed.Keep (P : List Deed → Registry PermissionCache → Prop) : Prop :=
  ∀ ds r c reply r', P ds r → Command.run c r = (.ok reply, r') → P (ds ++ [.command c]) r'

namespace Script

variable {P : List Deed → Registry PermissionCache → Prop}

theorem run_of_read_ok {γ : Type} [SchemaCache γ] {doc : Json} {c : Command}
    (h : Command.read doc = .ok c) (r : Registry γ) : (single doc).run r = c.run r := by
  rw [run, h]
  rfl

theorem run_of_read_error {γ : Type} [SchemaCache γ] {doc : Json} {f : Failure}
    (h : Command.read doc = .error f) (r : Registry γ) : (single doc).run r = (.error f, r) := by
  rw [run, h]
  rfl

mutual

/-- **What every command that succeeds keeps, a script keeps**, since a command that fails leaves no trace. -/
theorem deeds_keep (hP : Deed.Keep P) : (s : Script) → (ds : List Deed) →
    (r : Registry PermissionCache) → P ds r → P (ds ++ s.deeds r) (s.run r).2
  | .single doc, ds, r, h => by
    cases hread : Command.read doc with
    | error f => simpa [deeds, hread, run_of_read_error hread] using h
    | ok c =>
      rcases hrun : c.run r with ⟨f | reply, r'⟩
      · obtain rfl := Operation.atomic_command c r r' f hrun
        simpa [deeds, hread, run_of_read_ok hread, hrun, Except.isOk, Except.toBool] using h
      · simpa [deeds, hread, run_of_read_ok hread, hrun, Except.isOk, Except.toBool] using
          hP ds r c reply r' h hrun
  | .bulk scripts, ds, r, h => by
    rw [deeds, run, Operation.bind_after fun _ _ => rfl]
    exact deedsAll_keep hP scripts 0 ds r h

theorem deedsAll_keep (hP : Deed.Keep P) : (scripts : List Script) → (n : Nat) → (ds : List Deed) →
    (r : Registry PermissionCache) → P ds r → P (ds ++ deedsAll scripts r) (runAll n scripts r).2
  | [], n, ds, r, h => by
    rw [deedsAll, List.append_nil]
    exact h
  | s :: rest, n, ds, r, h => by
    have hs := deeds_keep hP s ds r h
    rw [deedsAll, runAll, ← List.append_assoc]
    rcases hrun : s.run r with ⟨f | reply, r₁⟩
    · have hwithin : Operation.within (place n) s.run r = (.error (f.under (place n)), r₁) := by
        rw [Operation.within, hrun]
      rw [hrun] at hs
      rw [Operation.bind_of_error hwithin]
      simpa [Except.isOk, Except.toBool] using hs
    · have hwithin : Operation.within (place n) s.run r = (.ok reply, r₁) := by
        rw [Operation.within, hrun]
      rw [hrun] at hs
      rw [Operation.bind_of_ok hwithin, Operation.bind_after fun _ _ => rfl]
      exact deedsAll_keep hP rest (n + 1) _ r₁ hs

end

end Script

namespace Event

variable {P : List Deed → Registry PermissionCache → Prop}

/-- **What deeds and other schemas keep, every run keeps.** -/
theorem deedsAll_keep (hcommand : Deed.Keep P)
    (hbackend : ∀ ds r source σ, P ds r → P ds (setBackend source σ |>.run PermissionCache.setBackend r))
    (hrebuild : ∀ ds r xs c, P ds r → r.cache.rebuild r.store.view .full = (.ok xs, c) →
      P (ds ++ [.rebuild]) ⟨r.store, c⟩) (es : List Event) (ds : List Deed)
    (r : Registry PermissionCache) (h : P ds r) :
    P (ds ++ deedsAll r es) (es.foldl (Event.run PermissionCache.setBackend) r) := by
  induction es generalizing ds r with
  | nil =>
    rw [deedsAll, List.append_nil]
    exact h
  | cons e es ih =>
    rw [deedsAll, ← List.append_assoc, List.foldl_cons]
    refine ih _ _ ?_
    cases e with
    | command doc => exact Script.deeds_keep hcommand (Script.ofJson doc) ds r h
    | setBackend source σ =>
      rw [deeds, List.append_nil]
      exact hbackend ds r source σ h
    | rebuild =>
      rcases hc : r.cache.rebuild r.store.view .full with ⟨f | xs, c⟩
      · -- a rebuild that fails changes nothing
        obtain ⟨rfl, -⟩ := PermissionCache.rebuild_eq_error.1 hc
        have hrun : rebuild.run PermissionCache.setBackend r = r := by
          show (⟨r.store, (r.cache.rebuild r.store.view .full).2⟩ : Registry PermissionCache) = r
          rw [hc]
        simpa [deeds, hc, hrun, Except.isOk, Except.toBool] using h
      · have hrun : rebuild.run PermissionCache.setBackend r = ⟨r.store, c⟩ := by
          show (⟨r.store, (r.cache.rebuild r.store.view .full).2⟩ : Registry PermissionCache) = _
          rw [hc]
        simpa [deeds, hc, hrun, Except.isOk, Except.toBool] using hrebuild ds r xs c h hc

end Event

end TableAccess
