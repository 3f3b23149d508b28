import WikiMount.Proofs.Change.Removals
import WikiMount.Proofs.Change.SpaceCarried

/-!
# Spaces that are left behind

Which spaces are known is recorded apart from the pages, and only grows: saving a page or renaming it makes
the space of the page known, and no write forgets a space. Removing the directory of a space deletes the
pages in it, and renaming a space carries them over, so the space itself stays known in either case. For
the same reason the new space is known after a rename only if there was a page to carry over.
-/

namespace WikiMount

namespace Store

/-- Each query for spaces reports the space exactly if it is known. -/
structure Reports (s : Store) (space : Space) (known : Prop) : Prop where
  registered : s.hasSpace space = true ↔ known
  all : space ∈ s.allSpaces ↔ known
  topLevel : space.isTopLevel = true → (space.name ∈ s.topLevelSpaces ↔ known)
  nested : ∀ around, space.parent = some around → (space.name ∈ s.spacesIn around ↔ known)

variable {s s' : Store} {space T : Space} {pages : List Page} {known : Prop}

/-- The queries for spaces agree with each other. -/
theorem Reports.of_registered (h : s.hasSpace space = true ↔ known) : s.Reports space known where
  registered := h
  all := mem_allSpaces.trans h
  topLevel htop := by rw [mem_topLevelSpaces, Space.topLevel_name htop, h]
  nested around hparent := by
    have hchild := Space.child_of_parent hparent
    rw [← h]
    constructor
    · intro hname
      exact (congrArg s.hasSpace hchild).symm.trans (hasSpace_of_mem_spacesIn hname)
    · intro hknown
      exact mem_spacesIn (Space.segments_ne_nil_of_parent hparent)
        ((congrArg s.hasSpace hchild).trans hknown)

/-- Renaming pages into a space makes it known with the spaces around it, once there is a page. -/
theorem hasSpace_of_applied
    (h : s.appliedAll (pages.map fun p => .write (.rename p (p.movedTo T))) = .ok s') :
    s'.hasSpace space = true ↔ (pages ≠ [] ∧ space ∈ T.lineage) ∨ s.hasSpace space = true := by
  induction pages generalizing s with
  | nil =>
    obtain rfl := Except.ok.inj h
    simp
  | cons p rest ih =>
    obtain ⟨s₁, hfirst, hrest⟩ := appliedAll_cons_eq_ok.1 h
    have hrename : s.rename p (p.movedTo T) = .ok s₁ := (applied_rename s _ _).symm.trans hfirst
    have hspace : (p.movedTo T).space = some T := rfl
    rw [ih hrest, hasSpace_rename hrename]
    simp only [hspace, Option.some.injEq, exists_eq_left', ne_eq, reduceCtorEq, not_false_eq_true,
      true_and]
    tauto

end Store

namespace Context

variable {ctx : Context} {t : Tree} {source destination : Nat} {plan : Plan} {F T : Space}

/-- A space that is renamed stays known if it was. The new one was not known before, and it is afterwards
exactly if a page has been carried over. -/
theorem Moves.reports (hs : ctx.repository.store.Coherent) (hF : t.kind source = .space F .pages)
    (hT : t.kind destination = .space T .pages) (h : ctx.Moves t source destination plan)
    (hok : (plan.execute ctx.toWorkspace).1 = .ok ()) :
    let before := ctx.repository.store
    let after := (plan.execute ctx.toWorkspace).2.repository.store
    after.Reports F (before.hasSpace F = true) ∧ before.hasSpace T = false ∧
      after.Reports T (∃ p, p.isIn F = true ∧ before.hasPage p = true) := by
  intro before after
  obtain ⟨_, hunknown, happlied⟩ := h.applied_of_space hF hT hok
  have hpages : before.pagesIn F ≠ [] ↔ ∃ p, p.isIn F = true ∧ before.hasPage p = true := by
    simp only [ne_eq, List.eq_nil_iff_forall_not_mem, not_forall, not_not, Store.mem_pagesIn, and_comm]
  refine ⟨.of_registered ?_, hunknown, .of_registered ?_⟩
  · rw [Store.hasSpace_of_applied happlied, or_iff_right_iff_imp]
    rintro ⟨hne, _⟩
    obtain ⟨p, hin, hstored⟩ := hpages.1 hne
    by_contra hF
    rw [hs.hasPage_of_unknown (Bool.eq_false_iff.2 hF) hin] at hstored
    cases hstored
  · rw [Store.hasSpace_of_applied happlied, hpages, hunknown]
    simp [T.self_mem_lineage]

end Context

namespace Service

/-- The kind of the node that a request is to remove, where it is found. -/
def removed? (s : Service) (caller : Caller) : Request → Option NodeKind
  | .delete path =>
    match (s.context caller .delete).lookup path with
    | .error _ => none
    | .ok (id, t) => some (t.kind id)
  | _ => none

variable {s : Service} {caller : Caller} {request : Request}

/-- Removing the directory of a space leaves every space known that was. -/
theorem hasSpace_removed {F space : Space} (hs : s.repository.store.Reachable)
    (hk : s.removed? caller request = some (.space F .pages))
    (hok : (s.handle caller request).1 = .ok .done) :
    (s.handle caller request).2.repository.store.hasSpace space =
      s.repository.store.hasSpace space := by
  cases request with
  | delete path =>
    have hdone : ((s.context caller .delete).delete path).1 = .ok () := respond_done hok
    obtain ⟨id, t, hl, hremoved⟩ := Context.delete_removed hs hdone
    have hkind : t.kind id = .space F .pages := by
      simpa only [removed?, hl, Option.some.injEq] using hk
    rw [hkind] at hremoved
    cases hremoved with
    | space _ h => exact congrArg (·.contains space) h.spaces
  | _ => cases hk

/-- A request that removes the directory of a space, or renames the space, never makes the space unknown:
afterwards every query reports it exactly if it was known before. The space that it is renamed to was not
known before, and is reported afterwards exactly if a page was stored in the old one. -/
theorem handle_spaces_left (hs : s.repository.store.Reachable)
    (hok : (s.handle caller request).1 = .ok .done) :
    let before := s.repository.store
    let after := (s.handle caller request).2.repository.store
    (∀ F, s.removed? caller request = some (.space F .pages) →
      after.Reports F (before.hasSpace F = true)) ∧
    ∀ F T, s.renamed? caller request = some (.space F .pages, .space T .pages) →
      after.Reports F (before.hasSpace F = true) ∧ before.hasSpace T = false ∧
        after.Reports T (∃ p, p.isIn F = true ∧ before.hasPage p = true) := by
  intro before after
  refine ⟨fun F hk => ?_, fun F T hk => ?_⟩
  · exact .of_registered (by rw [hasSpace_removed hs hk hok])
  · obtain ⟨ctx, t, source, destination, plan, hrepo, _, hsource, hdestination, hmoves, hdone,
      hafter⟩ := renamed_plan hk hok
    simp only [before, after, hafter, ← hrepo]
    rw [← hrepo] at hs
    exact hmoves.reports hs.coherent hsource hdestination hdone

/-- A space is removed with its page and stays, and an empty one is renamed and stays as well, without the
new one coming to be. -/
theorem handle_spaces_left_reported :
    let f := Space.topLevel "F"
    let e := Space.topLevel "E"
    let t := Space.topLevel "T"
    let store := (Store.ofPages [.inSpace "A" f]).registerSpace e
    let s := Service.new (.ofStore store) .standard
    let caller : Caller := ⟨.anonymous, .allowAll⟩
    let removal := Request.delete "/spaces/F"
    let move := Request.rename "/spaces/E" "/spaces/T"
    let without := (s.handle caller removal).2.repository.store
    let renamed := (s.handle caller move).2.repository.store
    (s.handle caller removal).1 = .ok .done ∧ (s.handle caller move).1 = .ok .done ∧
      f ∈ without.allSpaces ∧ "F" ∈ without.topLevelSpaces ∧
      e ∈ renamed.allSpaces ∧ "E" ∈ renamed.topLevelSpaces ∧ renamed.hasSpace t = false := by
  intro f e t store s caller removal move without renamed
  have hs : store.Reachable := (Store.reachable_ofPages _).registerSpace e
  have hremoval : (s.handle caller removal).1 = .ok .done := by
    dsimp only [s, store, caller, removal, f, e]
    rfl
  have hmove : (s.handle caller move).1 = .ok .done := by
    dsimp only [s, store, caller, move, f, e]
    rfl
  have hF := (handle_spaces_left hs hremoval).1 f (by decide)
  obtain ⟨hE, _, hT⟩ := (handle_spaces_left hs hmove).2 e t (by decide)
  refine ⟨hremoval, hmove, hF.all.2 (by decide), (hF.topLevel rfl).2 (by decide),
    hE.all.2 (by decide), (hE.topLevel rfl).2 (by decide), ?_⟩
  rw [← Bool.not_eq_true, hT.registered]
  rintro ⟨p, hin, hstored⟩
  have hempty : store.pagesIn e = [] := by decide
  have hmem : p ∈ store.pagesIn e := Store.mem_pagesIn.2 ⟨hstored, hin⟩
  rw [hempty] at hmem
  cases hmem

end Service

end WikiMount
