import TableAccess.Proofs.Registry.Deeds
import TableAccess.Proofs.Registry.Faithful
import TableAccess.Proofs.Store.Numbering

/-!
# Runs keep the order of insertion

Whatever numbers come in, a command uses the next number for what it inserts and no other, writes a definition
whose comment it changes under the number that it has, and uses no number where it removes something.

* `Store.Numbered.command`, `Store.Numbered.run`: **what a command and a run keep.**
* `Event.nextSeq_run`: **the next number counts the definitions that were ever inserted.**
-/

namespace TableAccess

namespace Store.Numbered

variable {r : Registry PermissionCache}

/-- **A command keeps the order of insertion**, whether it succeeds or fails. -/
theorem command (h : r.store.Numbered) {c : Command} (hc : c.Free Number.IsSound) :
    (c.run r).2.store.Numbered := by
  have hstep := c.step hc r
  generalize (c.run r).2 = r' at hstep ⊢
  cases hstep with
  | same => exact h
  | created _ hd hk hp hseq hn => exact h.insert hd hk hp hseq hn
  | @commented i d comment _ _ hd hk hp hn =>
    -- the definition is written again with the number that it has
    exact h.write ((h.legible.inscribed hd).setComment comment) hk hp (hn ▸ h.used i d hd) hn.ge
      fun j e hj heq => h.distinct j i e d hj hd heq
  | removed hs hn _ => exact h.of_subset hs hn.ge
  | tracked _ => exact h.of_subset (List.Subset.refl _) (Nat.le_refl _)

/-- **A run keeps the order of insertion.** -/
theorem run (h : r.store.Numbered) {es : List Event}
    (hes : ∀ doc, Event.command doc ∈ es → doc.AllNumbers Number.IsSound) :
    (es.foldl (Event.run PermissionCache.setBackend) r).store.Numbered := by
  induction es generalizing r with
  | nil => exact h
  | cons e es ih =>
    refine ih ?_ fun doc hdoc => hes doc (List.mem_cons_of_mem _ hdoc)
    cases e with
    | command doc =>
      exact runCommand_keeps (P := fun r => r.store.Numbered) (fun _ _ hc hr => hr.command hc)
        (hes doc List.mem_cons_self) h
    | setBackend source σ => exact h
    | rebuild => exact h

end Store.Numbered

/-! ## The next number -/

/-- A command that succeeds uses one number if it inserts a definition, and none otherwise. -/
theorem Command.Writes.nextSeq_eq {c : Command} {st st' : Store} (h : c.Writes st st') :
    st'.nextSeq = st.nextSeq + if c.creates then 1 else 0 := by
  cases c with
  | create _ source table role clause comment =>
    obtain ⟨k, -, -, -, rfl⟩ := Operation.created_eq_ok.1 h
    rfl
  | drop i => exact Operation.nextSeq_of_dropped h
  | setComment i comment =>
    obtain ⟨d, k, -, -, -, rfl⟩ := Operation.commented_eq_ok.1 h
    rfl
  | track source table =>
    obtain ⟨tracked, rfl⟩ := h
    rfl
  | untrack source table =>
    obtain ⟨is, hw⟩ := h
    exact Operation.nextSeq_of_untracked hw

/-- **The next number counts the definitions that were ever inserted**, after every run. -/
theorem Event.nextSeq_run {r : Registry PermissionCache} {ds : List Deed}
    (h : r.store.nextSeq = ds.countP Deed.creates + 1) (es : List Event) :
    (es.foldl (Event.run PermissionCache.setBackend) r).store.nextSeq =
      (ds ++ deedsAll r es).countP Deed.creates + 1 := by
  have hcommand : Deed.Keep fun ds r => r.store.nextSeq = ds.countP Deed.creates + 1 := by
    intro ds r c reply r' h hrun
    show r'.store.nextSeq = _
    rw [(Command.done_of_run hrun).1.nextSeq_eq, show r.store.nextSeq = _ from h, List.countP_append,
      List.countP_singleton, Nat.add_right_comm]
    rfl
  refine deedsAll_keep hcommand (fun _ _ _ _ h => h) (fun ds r xs c h _ => ?_) es ds r h
  show r.store.nextSeq = _
  rw [List.countP_append]
  exact h

end TableAccess
