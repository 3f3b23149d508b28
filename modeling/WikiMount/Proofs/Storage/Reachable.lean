import WikiMount.Proofs.Storage.Writes

/-!
# Reachable stores

A store is reachable if it comes from the empty one by making spaces known and by writes, whether
they succeed or not. In a reachable store a document is filed under its own reference, and the space
of a stored page is known.
-/

namespace WikiMount.Store

/-- The stores that calls of the repository lead to. -/
inductive Reachable : Store → Prop
  | empty : Reachable .empty
  | registerSpace {s : Store} (space : Space) : Reachable s → Reachable (s.registerSpace space)
  | write {s : Store} (w : Write) : Reachable s → Reachable (s.write w).2

/-- Documents are filed under their own references, in spaces that are known. -/
structure Coherent (s : Store) : Prop where
  filed : ∀ p d, s.documents.get? p = some d → d.reference = p
  known : ∀ p d, s.documents.get? p = some d →
    ∃ space, p.space = some space ∧ s.hasSpace space = true

variable {s s' : Store} {p q : Page}

theorem Coherent.space_of_stored (h : s.Coherent) (hp : s.hasPage p = true) :
    ∃ space, p.space = some space := by
  obtain ⟨d, hd⟩ := Option.isSome_iff_exists.1 hp
  obtain ⟨space, hspace, _⟩ := h.known p d hd
  exact ⟨space, hspace⟩

/-- No page is stored in a space that is not known. -/
theorem Coherent.hasPage_of_unknown (hs : s.Coherent) {T : Space} (hT : s.hasSpace T = false)
    (hq : q.isIn T = true) : s.hasPage q = false := by
  simp only [Page.isIn, beq_iff_eq] at hq
  rw [hasPage_eq, Option.isSome_eq_false_iff, Option.isNone_iff_eq_none]
  apply Option.eq_none_iff_forall_not_mem.2
  intro d hd
  obtain ⟨space, hspace, hknown⟩ := hs.known q d hd
  rw [hq] at hspace
  rw [Option.some.inj hspace, hknown] at hT
  cases hT

/-- A store stays coherent if spaces stay known and every new document is filed properly. -/
theorem Coherent.of_documents (h : s.Coherent)
    (hspaces : ∀ space, s.hasSpace space = true → s'.hasSpace space = true)
    (hdocs : ∀ p d, s'.documents.get? p = some d → s.documents.get? p = some d ∨
      d.reference = p ∧ ∃ space, p.space = some space ∧ s'.hasSpace space = true) :
    s'.Coherent := by
  refine ⟨fun p d hd => ?_, fun p d hd => ?_⟩
  · rcases hdocs p d hd with hd | ⟨hp, _⟩
    · exact h.filed p d hd
    · exact hp
  · rcases hdocs p d hd with hd | ⟨_, hk⟩
    · obtain ⟨space, hp, hs⟩ := h.known p d hd
      exact ⟨space, hp, hspaces space hs⟩
    · exact hk

theorem Coherent.empty : Store.empty.Coherent where
  filed := by simp [Store.empty]
  known := by simp [Store.empty]

theorem Coherent.registerSpace (h : s.Coherent) (space : Space) :
    (s.registerSpace space).Coherent :=
  h.of_documents (fun _ hs => hasSpace_registerSpace.2 (.inr hs)) fun _ _ hd => .inl hd

theorem Coherent.save (h : s.Coherent) {d : Document} (hs : s.save d = .ok s') : s'.Coherent := by
  refine h.of_documents (fun _ hk => (hasSpace_save hs).2 (.inr hk)) fun p e he => ?_
  rw [document?_save hs] at he
  split at he
  next hp =>
    obtain rfl := Option.some.inj he
    obtain ⟨space, hspace, _⟩ := save_eq_ok hs
    refine .inr ⟨hp.symm, space, hp ▸ hspace, ?_⟩
    exact (hasSpace_save hs).2 (.inl ⟨space, hspace, space.self_mem_lineage⟩)
  · exact .inl he

theorem Coherent.delete (h : s.Coherent) (hs : s.delete p = .ok s') : s'.Coherent := by
  refine h.of_documents (fun _ hk => ?_) fun q d hd => ?_
  · obtain ⟨_, rfl⟩ := delete_eq_ok hs
    exact hk
  · rw [document?_delete hs] at hd
    split at hd
    · cases hd
    · exact .inl hd

theorem Coherent.rename (h : s.Coherent) (hs : s.rename p q = .ok s') : s'.Coherent := by
  refine h.of_documents (fun _ hk => (hasSpace_rename hs).2 (.inr hk)) fun r d hd => ?_
  rw [document?_rename hs] at hd
  split at hd
  next hr =>
    obtain ⟨_, _, rfl⟩ := Option.map_eq_some_iff.1 hd
    obtain ⟨space, _, hspace, _⟩ := rename_eq_ok hs
    refine .inr ⟨hr.symm, space, hr ▸ hspace, ?_⟩
    exact (hasSpace_rename hs).2 (.inl ⟨space, hspace, space.self_mem_lineage⟩)
  · split at hd
    · cases hd
    · exact .inl hd

/-- Every write, successful or not, leaves a coherent store coherent. -/
theorem Coherent.write (h : s.Coherent) (w : Write) : (s.write w).2.Coherent :=
  write_keeps Coherent (fun h hs => h.save hs) (fun h hs => h.delete hs) (fun h hs => h.rename hs)
    (fun _ h => ⟨h.filed, h.known⟩) h w

theorem Reachable.coherent (h : s.Reachable) : s.Coherent := by
  induction h with
  | empty => exact .empty
  | registerSpace space _ ih => exact ih.registerSpace space
  | write w _ ih => exact ih.write w

/-- Adding a page is a write. -/
theorem Reachable.addPage (h : s.Reachable) {parent : Option Page}
    (hs : s.addPage p parent = .ok s') : s'.Reachable := by
  have hwrite := h.write (.save { Document.blank p with parent := parent })
  simp only [Store.addPage] at hs
  simpa only [Store.write, hs, settle] using hwrite

/-- The store of some pages without content. -/
def ofPages : List Page → Store
  | [] => .empty
  | page :: rest => ((ofPages rest).write (.save (.blank page))).2

theorem reachable_ofPages (pages : List Page) : (ofPages pages).Reachable := by
  induction pages with
  | nil => exact .empty
  | cons page rest ih => exact ih.write _

end WikiMount.Store
