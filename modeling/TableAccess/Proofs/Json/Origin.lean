import TableAccess.Proofs.Json.Canonical
import TableAccess.Proofs.Json.Float

/-!
# The numbers that a text brings in

Every number in the document that a text holds is what a numeral in the text stands for. What has been read
of a text is kept in the values that are complete and in the arrays and objects that are still open, so this
is followed from token to token.

* `Progress.AllNumbers`: all numbers that have been read have some property.
* `Progress.allNumbers_step`, `Progress.allNumbers_run`: **what one token keeps**, and so the rest of the
  text.
* `Document.isSound_of_ofText`: **all numbers in a text are sound.**
-/

namespace TableAccess

variable {N : Number → Prop}

namespace Document

theorem allNumbers_arr {items : List Document} :
    (arr items).AllNumbers N ↔ ∀ d ∈ items, d.AllNumbers N :=
  ⟨fun h _ hd n hn => h n (mem_numbersOfItems.2 ⟨_, hd, hn⟩), fun h n hn => by
    obtain ⟨d, hd, hn⟩ := mem_numbersOfItems.1 hn
    exact h d hd n hn⟩

theorem allNumbers_obj {entries : List (String × Document)} {cut : Option Flaw} :
    (obj entries cut).AllNumbers N ↔ ∀ e ∈ entries, e.2.AllNumbers N :=
  ⟨fun h _ he n hn => h n (mem_numbersOfEntries.2 ⟨_, he, hn⟩), fun h n hn => by
    obtain ⟨e, he, hn⟩ := mem_numbersOfEntries.1 hn
    exact h e he n hn⟩

theorem allNumbers_flaw (f : Flaw) : (flaw f).AllNumbers N := fun _ h => by cases h

mutual

/-- Cutting off what is nested too deeply brings no numbers in. -/
theorem allNumbers_limit : (n : Nat) → (d : Document) → d.AllNumbers N → (d.limit n).AllNumbers N
  | 0, .null, h | 0, .bool _, h | 0, .num _, h | 0, .str _, h | 0, .flaw _, h => h
  | _ + 1, .null, h | _ + 1, .bool _, h | _ + 1, .num _, h | _ + 1, .str _, h | _ + 1, .flaw _, h => h
  | 0, .arr _, _ | 0, .obj _ _, _ => allNumbers_flaw _
  | n + 1, .arr items, h => allNumbers_arr.2 (allNumbers_limitItems n items (allNumbers_arr.1 h))
  | n + 1, .obj entries _, h => allNumbers_obj.2 (allNumbers_limitEntries n entries (allNumbers_obj.1 h))

theorem allNumbers_limitItems : (n : Nat) → (items : List Document) → (∀ d ∈ items, d.AllNumbers N) →
    ∀ d ∈ limitItems n items, d.AllNumbers N
  | _, [], _ => List.forall_mem_nil _
  | n, d :: rest, h => by
    obtain ⟨hd, hrest⟩ := List.forall_mem_cons.1 h
    exact List.forall_mem_cons.2 ⟨allNumbers_limit n d hd, allNumbers_limitItems n rest hrest⟩

theorem allNumbers_limitEntries : (n : Nat) → (entries : List (String × Document)) →
    (∀ e ∈ entries, e.2.AllNumbers N) → ∀ e ∈ limitEntries n entries, e.2.AllNumbers N
  | _, [], _ => List.forall_mem_nil _
  | n, (k, d) :: rest, h => by
    obtain ⟨hd, hrest⟩ := List.forall_mem_cons.1 h
    exact List.forall_mem_cons.2 ⟨allNumbers_limit n d hd, allNumbers_limitEntries n rest hrest⟩

end

end Document

open Document (allNumbers_arr allNumbers_obj allNumbers_flaw)

/-- All numbers in front of the value that an open array or object waits for have the property `N`. -/
def Frame.AllNumbers (N : Number → Prop) : Frame → Prop
  | .arr before => ∀ d ∈ before, d.AllNumbers N
  | .obj before _ => ∀ e ∈ before, e.2.AllNumbers N

namespace Progress

/-- **All numbers that have been read have the property `N`.** -/
def AllNumbers (N : Number → Prop) : Progress → Prop
  | value open_ _ => ∀ x ∈ open_, x.AllNumbers N
  | item before open_ => (∀ d ∈ before, d.AllNumbers N) ∧ ∀ x ∈ open_, x.AllNumbers N
  | key before open_ _ | colon before _ open_ | entry before open_ =>
    (∀ e ∈ before, e.2.AllNumbers N) ∧ ∀ x ∈ open_, x.AllNumbers N
  | done d => d.AllNumbers N

theorem allNumbers_readable {cut : Option Flaw} {l : List (Option String × Document)}
    (h : ∀ e ∈ l, e.2.AllNumbers N) : ∀ e ∈ (readable cut l).1, e.2.AllNumbers N := by
  induction l with
  | nil => exact List.forall_mem_nil _
  | cons e l ih =>
    obtain ⟨k, d⟩ := e
    obtain ⟨hd, hl⟩ := List.forall_mem_cons.1 h
    cases k with
    | none => exact List.forall_mem_nil _
    | some k => exact List.forall_mem_cons.2 ⟨hd, ih hl⟩

theorem allNumbers_object {before : List (Option String × Document)} (cut : Option Flaw)
    (h : ∀ e ∈ before, e.2.AllNumbers N) : (object before cut).AllNumbers N :=
  allNumbers_obj.2 (allNumbers_readable fun e he => h e (List.mem_reverse.1 he))

theorem allNumbers_array {before : List Document} (h : ∀ d ∈ before, d.AllNumbers N) :
    (Document.arr before.reverse).AllNumbers N :=
  allNumbers_arr.2 fun d hd => h d (List.mem_reverse.1 hd)

theorem allNumbers_push {d : Document} {open_ : List Frame} (hd : d.AllNumbers N)
    (h : ∀ x ∈ open_, x.AllNumbers N) : (push d open_).AllNumbers N := by
  cases open_ with
  | nil => exact hd
  | cons x open_ =>
    obtain ⟨hx, hopen⟩ := List.forall_mem_cons.1 h
    cases x with
    | arr before => exact ⟨List.forall_mem_cons.2 ⟨hd, hx⟩, hopen⟩
    | obj before k => exact ⟨List.forall_mem_cons.2 ⟨hd, hx⟩, hopen⟩

theorem allNumbers_breakOff {d : Document} {open_ : List Frame} (hd : d.AllNumbers N)
    (h : ∀ x ∈ open_, x.AllNumbers N) : (breakOff d open_).AllNumbers N := by
  induction open_ generalizing d with
  | nil => exact hd
  | cons x open_ ih =>
    obtain ⟨hx, hopen⟩ := List.forall_mem_cons.1 h
    cases x with
    | arr before => exact ih (allNumbers_array (List.forall_mem_cons.2 ⟨hd, hx⟩)) hopen
    | obj before k => exact ih (allNumbers_object _ (List.forall_mem_cons.2 ⟨hd, hx⟩)) hopen

theorem allNumbers_abandon {p : Progress} (h : p.AllNumbers N) : p.abandon.AllNumbers N := by
  cases p with
  | value open_ fresh => exact allNumbers_breakOff (allNumbers_flaw _) h
  | item before open_ =>
    exact allNumbers_breakOff (allNumbers_array (List.forall_mem_cons.2 ⟨allNumbers_flaw _, h.1⟩)) h.2
  | key before open_ fresh => exact allNumbers_breakOff (allNumbers_object _ h.1) h.2
  | colon before k open_ =>
    exact allNumbers_breakOff (allNumbers_object _ (List.forall_mem_cons.2 ⟨allNumbers_flaw _, h.1⟩)) h.2
  | entry before open_ => exact allNumbers_breakOff (allNumbers_object _ h.1) h.2
  | done d => exact h

/-- The number of a token, if it is one that can be taken, has the property `N`. -/
def TokenHas (N : Number → Prop) (t : Token) : Prop := ∀ n, t = .number (some n) → N n

theorem allNumbers_scalar {t : Token} (ht : TokenHas N t) {d : Document} (h : scalar? t = some d) :
    d.AllNumbers N := by
  unfold scalar? at h
  split at h <;> cases h
  case h_3 n =>
    intro m hm
    obtain rfl := List.mem_singleton.1 hm
    exact ht m rfl
  all_goals exact fun _ hn => by cases hn

/-- **One token keeps the numbers that have been read**, and adds its own. -/
theorem allNumbers_step {p p' : Progress} {t : Token} (ht : TokenHas N t) (hp : p.AllNumbers N)
    (h : p.step t = some p') : p'.AllNumbers N := by
  unfold step at h
  split at h
  case h_4 =>
    obtain ⟨d, hd, rfl⟩ := Option.map_eq_some_iff.1 h
    exact allNumbers_push (allNumbers_scalar ht hd) hp
  all_goals cases h
  case h_1.refl => exact List.forall_mem_cons.2 ⟨List.forall_mem_nil _, hp⟩
  case h_2.refl => exact ⟨List.forall_mem_nil _, hp⟩
  case h_3.refl =>
    exact allNumbers_push (allNumbers_arr.2 (List.forall_mem_nil _)) (List.forall_mem_cons.1 hp).2
  case h_5.refl => exact List.forall_mem_cons.2 ⟨hp.1, hp.2⟩
  case h_6.refl => exact allNumbers_push (allNumbers_array hp.1) hp.2
  case h_7.refl => exact hp
  case h_8.refl => exact allNumbers_push (allNumbers_object _ hp.1) hp.2
  case h_9.refl => exact List.forall_mem_cons.2 ⟨hp.1, hp.2⟩
  case h_10.refl => exact hp
  case h_11.refl => exact allNumbers_push (allNumbers_object _ hp.1) hp.2

/-- **Reading on keeps the numbers that have been read**, if every token that is scanned has such a number. -/
theorem allNumbers_run (hN : ∀ c cs r, Token.scan c cs = some r → TokenHas N r.1) {p : Progress}
    {cs : List Char} (hp : p.AllNumbers N) : (p.run cs).1.AllNumbers N := by
  fun_induction run p cs with
  | case1 => exact allNumbers_abandon hp
  | case2 _ _ _ _ ih => exact ih hp
  | case3 => exact hp
  | case4 => exact allNumbers_abandon hp
  | case5 => exact allNumbers_abandon hp
  | case6 c cs hspace p hdone r hscan p' hstep ih => exact ih (allNumbers_step (hN c cs r hscan) hp hstep)

end Progress

/-- The number of a token is what a numeral stands for. -/
theorem Token.isSound_of_scan {c : Char} {cs : List Char} {r : Token × List Char} (h : scan c cs = some r) :
    Progress.TokenHas Number.IsSound r.1 := by
  intro n hn
  unfold scan at h
  split at h
  all_goals first
    | (obtain rfl := Option.some.inj h; cases hn)
    | (obtain ⟨m, -, rfl⟩ := Option.map_eq_some_iff.1 h; first | cases hn | skip)
  exact Numeral.isSound_of_value? (Token.number.inj hn)

/-- **All numbers in a text are sound.** -/
theorem Document.isSound_of_ofText (s : String) : (Document.ofText s).1.AllNumbers Number.IsSound := by
  have hrun : ((Progress.value [] false).run s.toList).1.AllNumbers Number.IsSound :=
    Progress.allNumbers_run (fun _ _ _ h => Token.isSound_of_scan h) (List.forall_mem_nil _)
  exact allNumbers_limit maxDepth _ hrun

end TableAccess
