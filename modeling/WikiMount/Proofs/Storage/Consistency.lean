import WikiMount.Proofs.Storage.Upkeep

/-!
# What a store is made of

Every write that files a document advances the clock and puts the new time on that document alone, so
no two documents were updated at the same time and none was updated after now. With what is already
known of documents, spaces and files this is all that the collections of a store have to agree on. It
holds of the empty store and is kept by every call of the repository, whether it succeeds or not.
-/

namespace WikiMount.Store

variable {s s' : Store} {p q : Page}

/-! ## Times of the last update -/

/-- The clock tells the documents of a store apart. -/
structure Timed (s : Store) : Prop where
  within : ∀ p d, s.documents.get? p = some d → 1 ≤ d.updatedAt ∧ d.updatedAt ≤ s.clock
  distinct : ∀ p q d e, s.documents.get? p = some d → s.documents.get? q = some e →
    d.updatedAt = e.updatedAt → p = q

theorem Timed.empty : Store.empty.Timed where
  within p d hd := by cases hd
  distinct p q d e hd := by cases hd

/-- A store stays timed if at most one page gets a document, and that with a time still to come. -/
theorem Timed.of_documents (h : s.Timed) (hclock : s.clock ≤ s'.clock) (filed : Page)
    (hdocs : ∀ p d, s'.documents.get? p = some d → s.documents.get? p = some d ∨
      p = filed ∧ s.clock < d.updatedAt ∧ d.updatedAt ≤ s'.clock) : s'.Timed where
  within p d hd := by
    rcases hdocs p d hd with hd | ⟨_, hlt, hle⟩
    · obtain ⟨hone, hle⟩ := h.within p d hd
      exact ⟨hone, Nat.le_trans hle hclock⟩
    · exact ⟨by omega, hle⟩
  distinct p q d e hd he htime := by
    rcases hdocs p d hd with hd | ⟨hp, hlt, _⟩ <;> rcases hdocs q e he with he | ⟨hq, hlt', _⟩
    · exact h.distinct p q d e hd he htime
    · have := (h.within p d hd).2
      omega
    · have := (h.within q e he).2
      omega
    · exact hp.trans hq.symm

/-- Nothing is timed anew where no document is filed. -/
theorem Timed.of_kept (h : s.Timed) (hclock : s'.clock = s.clock)
    (hdocs : ∀ p d, s'.documents.get? p = some d → s.documents.get? p = some d) : s'.Timed :=
  h.of_documents (Nat.le_of_eq hclock.symm) default fun p d hd => .inl (hdocs p d hd)

theorem Timed.save (h : s.Timed) {d : Document} (hs : s.save d = .ok s') : s'.Timed := by
  have hdoc := document?_save hs
  obtain ⟨_, _, rfl⟩ := save_eq_ok hs
  refine h.of_documents (Nat.le_succ s.clock) d.reference fun p e he => ?_
  rw [hdoc] at he
  split at he
  next hp =>
    obtain rfl := Option.some.inj he
    exact .inr ⟨hp, Nat.lt_succ_self s.clock, Nat.le_refl _⟩
  · exact .inl he

theorem Timed.delete (h : s.Timed) (hs : s.delete p = .ok s') : s'.Timed := by
  have hdoc := document?_delete hs
  obtain ⟨_, rfl⟩ := delete_eq_ok hs
  refine h.of_kept rfl fun q d hd => ?_
  rw [hdoc] at hd
  split at hd
  · cases hd
  · exact hd

theorem Timed.rename (h : s.Timed) (hs : s.rename p q = .ok s') : s'.Timed := by
  have hdoc := document?_rename hs
  obtain ⟨_, _, _, _, rfl⟩ := rename_eq_ok hs
  refine h.of_documents (Nat.le_succ s.clock) q fun r d hd => ?_
  rw [hdoc] at hd
  split at hd
  next hr =>
    obtain ⟨_, _, rfl⟩ := Option.map_eq_some_iff.1 hd
    exact .inr ⟨hr, Nat.lt_succ_self s.clock, Nat.le_refl _⟩
  · split at hd
    · cases hd
    · exact .inl hd

theorem Timed.write (h : s.Timed) (w : Write) : (s.write w).2.Timed :=
  write_keeps Timed (fun h hs => h.save hs) (fun h hs => h.delete hs) (fun h hs => h.rename hs)
    (fun _ h => ⟨h.within, h.distinct⟩) h w

theorem Reachable.timed (h : s.Reachable) : s.Timed := by
  induction h with
  | empty => exact .empty
  | registerSpace space _ ih => exact ⟨ih.within, ih.distinct⟩
  | write w _ ih => exact ih.write w

/-! ## Consistency -/

/-- What the spaces, documents, files and the clock of a store have to do with each other. -/
structure Consistent (s : Store) : Prop where
  filed : ∀ p d, s.documents.get? p = some d → d.reference = p
  /-- A page has a space, and that is known. -/
  known : ∀ p d, s.documents.get? p = some d →
    ∃ space, p.space = some space ∧ s.hasSpace space = true
  saved : ∀ p d, s.documents.get? p = some d → d.isNew = false
  enclosed : ∀ space parent, s.hasSpace space = true → space.parent = some parent →
    s.hasSpace parent = true
  /-- Whatever page has a place for files is stored, also if it holds none. -/
  held : ∀ p files, s.attachments.get? p = some files → s.hasPage p = true
  within : ∀ p d, s.documents.get? p = some d → 1 ≤ d.updatedAt ∧ d.updatedAt ≤ s.clock
  distinct : ∀ p q d e, s.documents.get? p = some d → s.documents.get? q = some e →
    d.updatedAt = e.updatedAt → p = q

/-- Whatever the calls of a repository are and whether they succeed, its collections agree. -/
theorem Reachable.consistent (h : s.Reachable) : s.Consistent where
  filed := h.coherent.filed
  known := h.coherent.known
  saved p d hd := (h.upkept.dated p d hd).1
  enclosed := h.upkept.enclosed
  held := h.upkept.held
  within := h.timed.within
  distinct := h.timed.distinct

/-- A page that was replaced by a renamed one, one renamed to itself, and a file that was lost on the
way to a page without a space. -/
theorem consistent_after_loss :
    let space := (Space.topLevel "Main").child "Sub"
    let a := Page.inSpace "A" space
    let b := Page.inSpace "B" space
    let file : Attachment := ⟨a, "a.txt"⟩
    let one := (Store.empty.write (.attach file .empty)).2
    let two := (one.write (.save (.blank b))).2
    let three := (two.write (.rename b b)).2
    let four := (three.write (.rename a b)).2
    let lost := four.write (.move ⟨b, "a.txt"⟩ ⟨.relative "C", "c.txt"⟩)
    lost.2.Reachable ∧ lost.1.isOk = false ∧ lost.2.documents.keys = [b] ∧
      (lost.2.filesOf b).isEmpty = true ∧ lost.2.clock = 4 ∧ lost.2.Consistent := by
  intro space a b file one two three four lost
  have hs : lost.2.Reachable :=
    ((((Store.Reachable.empty.write _).write _).write _).write _).write _
  have hrun : lost.1.isOk = false ∧ lost.2.documents.keys = [b] ∧
      (lost.2.filesOf b).isEmpty = true ∧ lost.2.clock = 4 := by
    dsimp only [space, a, b, file, one, two, three, four, lost]
    decide +kernel
  exact ⟨hs, hrun.1, hrun.2.1, hrun.2.2.1, hrun.2.2.2, hs.consistent⟩

end WikiMount.Store
