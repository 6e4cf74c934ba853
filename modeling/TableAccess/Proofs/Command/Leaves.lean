import TableAccess.Proofs.Command.Opening
import TableAccess.Proofs.Registry.Operation

/-!
# Lists of commands are run in order

The single commands of a script are its leaves. Running the script is running its leaves one after
another, up to the first that fails: the replies form a tree of the same shape, and a failure is that of
the leaf, seen from where the leaf stands.

* `Script.leaves`, `Script.tree`: the leaves with their places, and the tree of their replies.
* `Script.run_eq_leaves`: **a script is run as its leaves are, one after another.**
* `runCommand_eq_leaves`: the same, of a command document.
* `runCommand_keeps`: what every command keeps, a command document keeps.
-/

namespace TableAccess

/-- A single command of a script, and where it stands: its places in the lists around it, from the outside
in. -/
structure Leaf where
  path : List String
  doc : Json

namespace Leaf

/-- The leaf seen from one list further out. -/
def under (segment : String) (x : Leaf) : Leaf := { x with path := segment :: x.path }

/-- A failure of the leaf, seen from outside of all lists. -/
def failure (x : Leaf) (f : Failure) : Failure := ⟨x.path ++ f.path, f.cause⟩

/-- **Runs the leaf by itself**; the place of the leaf is put in front of the path of its failure. -/
def run {γ : Type} [SchemaCache γ] [Engine] (x : Leaf) : Operation γ Json := fun r =>
  match runCommand x.doc r with
  | (.ok reply, r') => (.ok reply, r')
  | (.error f, r') => (.error (x.failure f), r')

variable {γ : Type} [SchemaCache γ] [Engine] {x : Leaf} {r r' : Registry γ}

theorem run_after : (x.run r).2 = (runCommand x.doc r).2 := by
  unfold run
  rcases runCommand x.doc r with ⟨_ | _, _⟩ <;> rfl

theorem run_eq_error {e : Failure} (h : x.run r = (.error e, r')) :
    ∃ f, runCommand x.doc r = (.error f, r') ∧ e = x.failure f := by
  unfold run at h
  rcases hx : runCommand x.doc r with ⟨f | reply, r₁⟩
  · rw [hx] at h
    cases h
    exact ⟨f, rfl, rfl⟩
  · rw [hx] at h
    cases h

end Leaf

namespace Script

mutual

/-- **The leaves of a script**, in order. -/
def leaves : Script → List Leaf
  | .single doc => [⟨[], doc⟩]
  | .bulk scripts => leavesFrom 0 scripts

/-- The leaves of scripts, the first of which is at place `n` of a list. -/
def leavesFrom (n : Nat) : List Script → List Leaf
  | [] => []
  | s :: rest => (leaves s).map (Leaf.under (place n)) ++ leavesFrom (n + 1) rest

end

mutual

/-- **The tree of replies to a script**, of the replies to its leaves in order. -/
def tree : Script → List Json → Json
  | .single _, replies => replies.headD .null
  | .bulk scripts, replies => .arr (trees scripts replies)

/-- The trees of replies to scripts, each of as many replies as the script has leaves. -/
def trees : List Script → List Json → List Json
  | [], _ => []
  | s :: rest, replies =>
    tree s (replies.take s.leaves.length) :: trees rest (replies.drop s.leaves.length)

end

end Script

/-! ## Running in order -/

namespace Operation

variable {γ α β δ : Type}

theorem within_pure (segment : String) (a : α) : within segment (pure a : Operation γ α) = pure a := rfl

theorem within_bind (segment : String) (o : Operation γ α) (f : α → Operation γ β) :
    within segment (o >>= f) = within segment o >>= fun a => within segment (f a) := by
  funext r
  rw [bind_apply]
  simp only [within, bind_apply]
  rcases o r with ⟨_ | _, _⟩ <;> rfl

theorem within_mapM (segment : String) (f : δ → Operation γ β) (l : List δ) :
    within segment (l.mapM f) = l.mapM fun x => within segment (f x) := by
  induction l with
  | nil => rfl
  | cons x l ih =>
    simp only [List.mapM_cons, within_bind, within_pure, ih]

/-- Every item of a list has a result. -/
theorem length_of_mapM {f : α → Operation γ β} {l : List α} {bs : List β} {r r' : Registry γ}
    (h : l.mapM f r = (.ok bs, r')) : bs.length = l.length := by
  induction l generalizing bs r with
  | nil =>
    cases h
    rfl
  | cons x l ih =>
    rw [List.mapM_cons] at h
    obtain ⟨b, r₁, -, h⟩ := bind_eq_ok.1 h
    obtain ⟨bs, r₂, hl, h⟩ := bind_eq_ok.1 h
    cases h
    rw [List.length_cons, List.length_cons, ih hl]

/-- **The first failure ends a run**: what came before it has succeeded, and what comes after it is left
out. -/
theorem mapM_eq_error {f : α → Operation γ β} {l : List α} {e : Failure} {r r' : Registry γ}
    (h : l.mapM f r = (.error e, r')) : ∃ before x after bs r₁, l = before ++ x :: after ∧
      before.mapM f r = (.ok bs, r₁) ∧ f x r₁ = (.error e, r') := by
  induction l generalizing r with
  | nil => cases h
  | cons x l ih =>
    rw [List.mapM_cons] at h
    rcases bind_eq_error.1 h with hx | ⟨b, r₁, hx, h⟩
    · exact ⟨[], x, l, [], r, rfl, rfl, hx⟩
    · rcases bind_eq_error.1 h with hl | ⟨_, _, -, h⟩
      · obtain ⟨before, y, after, bs, r₂, rfl, hbefore, hy⟩ := ih hl
        refine ⟨x :: before, y, after, b :: bs, r₂, rfl, ?_, hy⟩
        rw [List.mapM_cons, bind_of_ok hx, bind_of_ok hbefore]
        rfl
      · cases h

/-- What each step keeps, the run keeps. -/
theorem mapM_keeps {P : Registry γ → Prop} {f : α → Operation γ β} {l : List α}
    (hf : ∀ x ∈ l, ∀ r, P r → P (f x r).2) {r : Registry γ} (hr : P r) : P (l.mapM f r).2 := by
  induction l generalizing r with
  | nil => exact hr
  | cons x l ih =>
    obtain ⟨hx, hl⟩ := List.forall_mem_cons.1 hf
    have h₁ := hx r hr
    rw [List.mapM_cons]
    rcases hfx : f x r with ⟨_ | b, r₁⟩
    · rw [bind_of_error hfx]
      rwa [hfx] at h₁
    · rw [bind_of_ok hfx, bind_after fun _ _ => rfl]
      rw [hfx] at h₁
      exact ih hl h₁

end Operation

namespace Script

variable {γ : Type} [SchemaCache γ]

theorem within_run [Engine] (segment : String) (x : Leaf) :
    Operation.within segment (x.run : Operation γ Json) = (x.under segment).run := by
  funext r
  simp only [Operation.within, Leaf.run, Leaf.under]
  rcases runCommand x.doc r with ⟨_ | _, _⟩ <;> rfl

/-- A leaf that stands in no list is run as its document. -/
theorem run_leaf [Engine] {doc : Json} (h : isList doc = false) :
    ((⟨[], doc⟩ : Leaf).run : Operation γ Json) = (single doc).run := by
  funext r
  simp only [Leaf.run, runCommand, ofJson_of_not_isList h]
  rcases (single doc).run r with ⟨_ | _, _⟩ <;> rfl

mutual

/-- **A script is run as its leaves are, one after another.** -/
theorem run_eq_leaves [Engine] : (s : Script) → (∀ x ∈ s.leaves, isList x.doc = false) →
    (s.run : Operation γ Json) = do return s.tree (← s.leaves.mapM Leaf.run)
  | .single doc, h => by
    rw [leaves] at h ⊢
    rw [List.mapM_cons, run_leaf (h _ List.mem_cons_self)]
    simp [tree]
  | .bulk scripts, h => by
    rw [leaves] at h ⊢
    rw [run, runAll_eq_leaves 0 scripts h]
    simp [tree]

theorem runAll_eq_leaves [Engine] : (n : Nat) → (scripts : List Script) →
    (∀ x ∈ leavesFrom n scripts, isList x.doc = false) →
    (runAll n scripts : Operation γ (List Json)) =
      do return trees scripts (← (leavesFrom n scripts).mapM Leaf.run)
  | _, [], _ => rfl
  | n, s :: rest, h => by
    rw [leavesFrom, List.forall_mem_append, List.forall_mem_map] at h
    have hfirst : Operation.within (place n) (s.run : Operation γ Json) =
        do return s.tree (← (s.leaves.map (Leaf.under (place n))).mapM Leaf.run) := by
      simp only [run_eq_leaves s h.1, Operation.within_bind, Operation.within_mapM, within_run,
        Operation.within_pure, List.mapM_map]
      rfl
    funext r
    rw [runAll, hfirst, runAll_eq_leaves (n + 1) rest h.2, leavesFrom, List.mapM_append]
    simp only [bind_assoc, pure_bind]
    rw [Operation.bind_apply, Operation.bind_apply]
    rcases hx : (s.leaves.map (Leaf.under (place n))).mapM Leaf.run r with ⟨e | replies, r₁⟩
    · rfl
    · -- the first script takes as many replies as it has leaves
      have hlength := Operation.length_of_mapM hx
      rw [List.length_map] at hlength
      simp only [trees, ← hlength, List.take_left', List.drop_left']

end

theorem exists_of_mem_leavesFrom {n : Nat} {scripts : List Script} {x : Leaf}
    (h : x ∈ leavesFrom n scripts) : ∃ s ∈ scripts, ∃ y ∈ s.leaves, y.doc = x.doc := by
  induction scripts generalizing n with
  | nil => cases h
  | cons s rest ih =>
    rw [leavesFrom, List.mem_append] at h
    rcases h with h | h
    · obtain ⟨y, hy, rfl⟩ := List.mem_map.1 h
      exact ⟨s, List.mem_cons_self, y, hy, rfl⟩
    · obtain ⟨s', hs', hy⟩ := ih h
      exact ⟨s', List.mem_cons_of_mem _ hs', hy⟩

/-- What a list hands on to its commands, the leaves of a document have, and none of them is a list. -/
theorem forall_mem_leaves {P : Json → Prop} (hP : ∀ doc j, P doc → j ∈ itemsOf doc → P j) {doc : Json}
    (h : P doc) : ∀ x ∈ (ofJson doc).leaves, P x.doc ∧ isList x.doc = false := by
  induction doc using ofJson.induct with
  | case1 doc hl ih =>
    rw [ofJson, if_pos hl, leaves]
    intro x hx
    obtain ⟨s, hs, y, hy, hyx⟩ := exists_of_mem_leavesFrom hx
    obtain ⟨j, -, rfl⟩ := List.mem_map.1 hs
    exact hyx ▸ ih j (hP doc j h j.2) y hy
  | case2 doc hl =>
    rw [ofJson, if_neg hl, leaves]
    exact List.forall_mem_singleton.2 ⟨h, eq_false_of_ne_true hl⟩

theorem not_isList_of_mem_leaves (doc : Json) : ∀ x ∈ (ofJson doc).leaves, isList x.doc = false :=
  fun x hx => (forall_mem_leaves (P := fun _ => True) (fun _ _ _ _ => trivial) trivial x hx).2

/-- A document that cannot be read, and one that says it is a list and has no commands, commands nothing. -/
theorem read_of_malformed {doc : Json}
    (h : ∀ d, CommandDocument.reader.ofJson doc = .ok d → d.isBulk = true) :
    ∃ f, Command.read doc = .error f := by
  unfold Command.read
  cases hd : CommandDocument.reader.ofJson doc with
  | error e => exact ⟨_, rfl⟩
  | ok d =>
    refine ⟨⟨["args"], .command .notAList⟩, ?_⟩
    show (if d.isBulk = true then _ else _) = _
    rw [if_pos (h d hd)]
    rfl

end Script

/-! ## Command documents -/

/-- What every document keeps that is not a list of commands, a command document keeps. -/
theorem runCommand_keeps_of_single {γ : Type} [SchemaCache γ] [Engine] {N : Number → Prop}
    {P : Registry γ → Prop} (hP : ∀ (doc : Json) r, Script.isList doc = false → doc.AllNumbers N → P r →
      P (runCommand doc r).2) {doc : Json} (hdoc : doc.AllNumbers N) {r : Registry γ} (hr : P r) :
    P (runCommand doc r).2 := by
  rw [runCommand, Script.run_eq_leaves _ (Script.not_isList_of_mem_leaves doc),
    Operation.bind_after fun _ _ => rfl]
  refine Operation.mapM_keeps (fun x hx r hr => ?_) hr
  obtain ⟨hread, hsingle⟩ :=
    Script.forall_mem_leaves (fun _ _ => Script.allNumbers_of_mem_itemsOf) hdoc x hx
  rw [Leaf.run_after]
  exact hP x.doc r hsingle hread hr

/-- **What every command keeps, a command document keeps**, whether it succeeds or fails. -/
theorem runCommand_keeps {γ : Type} [SchemaCache γ] [Engine] {N : Number → Prop} {P : Registry γ → Prop}
    (hP : ∀ (c : Command) r, c.Free N → P r → P (c.run r).2) {doc : Json} (hdoc : doc.AllNumbers N)
    {r : Registry γ} (hr : P r) : P (runCommand doc r).2 := by
  refine runCommand_keeps_of_single (fun doc r hsingle hread hr => ?_) hdoc hr
  rw [runCommand, Script.ofJson_of_not_isList hsingle, Script.run]
  cases hc : Command.read doc with
  | error f => exact hr
  | ok c =>
    have hok : (Operation.ofExcept (Except.ok c) : Operation γ Command) r = (.ok c, r) := rfl
    rw [Operation.bind_of_ok hok]
    exact hP c r (Command.free_of_read hread hc) hr

/-- **Running the document is running the leaves of the script**, one after another. -/
structure Json.RunsInOrder (γ : Type) [SchemaCache γ] [Engine] (doc : Json) (s : Script) : Prop where
  run : (runCommand doc : Operation γ Json) = do return s.tree (← s.leaves.mapM Leaf.run)
  /-- The document succeeds if every leaf does, and its reply is the tree of their replies. -/
  success : ∀ (r r' : Registry γ) (reply : Json), runCommand doc r = (.ok reply, r') ↔
    ∃ replies, s.leaves.mapM Leaf.run r = (.ok replies, r') ∧ reply = s.tree replies
  /-- A failure is that of a leaf, which is run on what the leaves before it have left, and nothing is
  done after it. -/
  failure : ∀ (r r' : Registry γ) (e : Failure), runCommand doc r = (.error e, r') →
    ∃ before x after replies r₁ f, s.leaves = before ++ x :: after ∧
      before.mapM Leaf.run r = (.ok replies, r₁) ∧ runCommand x.doc r₁ = (.error f, r') ∧
      e = ⟨x.path ++ f.path, f.cause⟩
  /-- A leaf that cannot be read fails, and one that says it is a list and has no commands. -/
  malformed : ∀ x ∈ s.leaves, (∀ d, CommandDocument.reader.ofJson x.doc = .ok d → d.isBulk = true) →
    ∀ r : Registry γ, ∃ f, runCommand x.doc r = (.error f, r)

/-- **Lists of commands are run in order**, whatever engine they are run on. A document lays open as one
script, and running it is running the leaves of that script one after another. -/
theorem runCommand_eq_leaves (γ : Type) [SchemaCache γ] [Engine] {doc : Json} (hdoc : doc.IsCanonical) :
    (∃! s, doc.LaysOpen s) ∧ ∀ s, doc.LaysOpen s → doc.RunsInOrder γ s := by
  simp only [Json.laysOpen_iff hdoc]
  refine ⟨⟨_, rfl, fun s hs => hs⟩, fun s hs => ?_⟩
  subst hs
  have hrun : (runCommand doc : Operation γ Json) =
      do return (Script.ofJson doc).tree (← (Script.ofJson doc).leaves.mapM Leaf.run) :=
    Script.run_eq_leaves _ (Script.not_isList_of_mem_leaves doc)
  refine ⟨hrun, fun r r' reply => ?_, fun r r' e h => ?_, fun x hx hmalformed r => ?_⟩
  · rw [hrun, Operation.bind_eq_ok]
    constructor
    · rintro ⟨replies, r₁, hl, h⟩
      cases h
      exact ⟨replies, hl, rfl⟩
    · rintro ⟨replies, hl, rfl⟩
      exact ⟨replies, r', hl, rfl⟩
  · rw [hrun] at h
    rcases Operation.bind_eq_error.1 h with hl | ⟨_, _, -, h⟩
    · obtain ⟨before, x, after, replies, r₁, hleaves, hbefore, hx⟩ := Operation.mapM_eq_error hl
      obtain ⟨f, hf, rfl⟩ := Leaf.run_eq_error hx
      exact ⟨before, x, after, replies, r₁, f, hleaves, hbefore, hf, rfl⟩
    · cases h
  · obtain ⟨f, hf⟩ := Script.read_of_malformed hmalformed
    have hsingle := Script.not_isList_of_mem_leaves doc x hx
    refine ⟨f, ?_⟩
    rw [runCommand, Script.ofJson_of_not_isList hsingle, Script.run, hf]
    rfl

/-- A list in a list, one of whose commands says that it is a list and has no commands. -/
theorem runCommand_eq_leaves_authors :
    let create : String → Json := fun role => .obj [("args",
      .obj [("permission", .obj [("filter", .obj [])]), ("role", .str role), ("table", .str "author")]),
      ("type", .str "create_delete_permission")]
    let lost : Json := .obj [("type", .str "pg_bulk")]
    let inner : Json := .obj [("args", .arr [create "editor", lost]), ("type", .str "pg_bulk")]
    let doc : Json := .obj [("args", .arr [create "user", inner, create "guest"]), ("type", .str "bulk")]
    let s : Script := .bulk [.single (create "user"), .bulk [.single (create "editor"), .single lost],
      .single (create "guest")]
    doc.IsCanonical ∧ ((∃! s, doc.LaysOpen s) ∧ ∀ s, doc.LaysOpen s → doc.RunsInOrder PermissionCache s) ∧
      doc.LaysOpen s ∧ s.leaves.map (·.path) =
        [["args[0]"], ["args[1]", "args[0]"], ["args[1]", "args[1]"], ["args[2]"]] := by
  intro create lost inner doc s
  have hkeys : compare "args" "type" = .lt ∧ compare "permission" "role" = .lt ∧
      compare "permission" "table" = .lt ∧ compare "role" "table" = .lt := by decide
  have hdoc : doc.IsCanonical := by
    simp [doc, inner, lost, create, Json.IsCanonical, Json.AreCanonical, Json.HaveCanonical, hkeys]
  have hlists : doc.Lists [create "user", inner, create "guest"] :=
    Script.lists_itemsOf hdoc (by decide +kernel)
  have hinner : inner.Lists [create "editor", lost] :=
    Script.lists_itemsOf (Json.isCanonical_of_lists hdoc hlists inner (by simp)) (by decide +kernel)
  have hsingle : ∀ j ∈ [create "user", create "editor", lost, create "guest"], ∀ items, ¬ j.Lists items := by
    simp only [← Script.isList_eq_false_iff]
    decide +kernel
  refine ⟨hdoc, runCommand_eq_leaves PermissionCache hdoc, .bulk hlists ?_, by decide +kernel⟩
  refine .cons (.single (hsingle _ (by simp))) (.cons (.bulk hinner ?_) (.cons (.single ?_) .nil))
  · exact .cons (.single (hsingle _ (by simp))) (.cons (.single (hsingle _ (by simp))) .nil)
  · exact hsingle _ (by simp)

end TableAccess
