import WikiMount.Proofs.Change.BatchRuns
import WikiMount.Proofs.Change.SpaceRename
import WikiMount.Proofs.Storage.Queries

/-!
# What renaming a space keeps

A space is renamed by giving each of its pages the same name in the new space. The list of pages is
made before the first of them moves, and each step changes the map it was made from. Since the new space
was not known it held no page, and pages of one space have different images, so the steps do not get in
each other's way: what a step brings to the new space, the later ones keep. Parents are not part of what
is carried over: a document goes on naming the page that its parent was.
-/

namespace WikiMount

namespace Page

variable {p q : Page} {F T : Space}

/-- Pages of one space have different images. -/
theorem movedTo_inj (hp : p.isIn F = true) (hq : q.isIn F = true) (h : p.movedTo T = q.movedTo T) :
    p = q := by
  obtain ⟨name, rfl⟩ := exists_eq_inSpace hp
  obtain ⟨other, rfl⟩ := exists_eq_inSpace hq
  simpa [movedTo, inSpace] using h

/-- The page that a page is once `F` has been renamed to `T`. -/
def carried (p : Page) (F T : Space) : Page := if p.isIn F then p.movedTo T else p

end Page

namespace Store

/-- Some pages have become the pages of the same names in `T`, and nothing else has changed. -/
structure Carried (T : Space) (pages : List Page) (s s' : Store) : Prop where
  moved : ∀ p ∈ pages, ∃ d n, s.documents.get? p = some d ∧
    s'.documents.get? (p.movedTo T) = some { d with reference := p.movedTo T, updatedAt := n }
  files : ∀ p ∈ pages, s'.filesOf (p.movedTo T) = s.filesOf p
  gone : ∀ p ∈ pages, s'.documents.get? p = none
  kept : ∀ q, q ∉ pages → (∀ p ∈ pages, q ≠ p.movedTo T) →
    s'.documents.get? q = s.documents.get? q ∧ s'.filesOf q = s.filesOf q

/-- The space `F` has become the space `T`. -/
structure SpaceRenamed (F T : Space) (s s' : Store) : Prop where
  /-- The new space held no page, so none is overwritten. -/
  unused : ∀ q, q.isIn T = true → s.hasPage q = false
  stored : ∀ q, s'.hasPage q = true ↔ q.isIn F = false ∧ s.hasPage q = true ∨
    ∃ p, p.isIn F = true ∧ s.hasPage p = true ∧ q = p.movedTo T
  documents : ∀ p d, p.isIn F = true → s.documents.get? p = some d →
    ∃ n, s'.documents.get? (p.movedTo T) = some { d with reference := p.movedTo T, updatedAt := n }
  files : ∀ p, p.isIn F = true → s.hasPage p = true → s'.filesOf (p.movedTo T) = s.filesOf p
  other_documents : ∀ q d, q.isIn F = false → s.documents.get? q = some d →
    s'.documents.get? q = some d
  other_files : ∀ q, q.isIn F = false → s.hasPage q = true → s'.filesOf q = s.filesOf q

variable {s s₁ s' : Store} {F T : Space} {p q : Page} {pages : List Page}

namespace Carried

theorem refl (T : Space) (s : Store) : Carried T [] s s where
  moved _ h := nomatch h
  files _ h := nomatch h
  gone _ h := nomatch h
  kept _ _ _ := ⟨rfl, rfl⟩

theorem of_rename (hne : p ≠ p.movedTo T) (h : s.rename p (p.movedTo T) = .ok s') :
    Carried T [p] s s' := by
  have hdoc := document?_rename h
  constructor
  · intro q hq
    obtain rfl := List.mem_singleton.1 hq
    obtain ⟨_, d, _, hd, _⟩ := rename_eq_ok h
    exact ⟨d, s.clock + 1, hd, by rw [hdoc, if_pos rfl, hd, Option.map_some]⟩
  · intro q hq
    obtain rfl := List.mem_singleton.1 hq
    exact filesOf_rename h hne
  · intro q hq
    obtain rfl := List.mem_singleton.1 hq
    rw [hdoc, if_neg hne, if_pos rfl]
  · intro q hq himage
    have hp : q ≠ p := fun he => hq (List.mem_singleton.2 he)
    have hT := himage p (.head _)
    exact ⟨by rw [hdoc, if_neg hT, if_neg hp], filesOf_rename_of_ne h hp hT⟩

/-- A page moves first and others of the same space follow. -/
theorem cons (hne : F ≠ T) (hp : p.isIn F = true) (hpages : ∀ q ∈ pages, q.isIn F = true)
    (hnew : p ∉ pages) (h : Carried T [p] s s₁) (h' : Carried T pages s₁ s') :
    Carried T (p :: pages) s s' := by
  -- Neither the page nor its image is touched by what follows.
  have hlater := h'.kept p hnew fun q _ => Page.ne_of_isIn hne hp (q.isIn_movedTo T)
  have himage := h'.kept (p.movedTo T)
    (fun hm => Page.ne_of_isIn hne (hpages _ hm) (p.isIn_movedTo T) rfl)
    fun q hq he => hnew (Page.movedTo_inj hp (hpages q hq) he ▸ hq)
  -- What follows has not been touched before.
  have hfirst : ∀ q ∈ pages,
      s₁.documents.get? q = s.documents.get? q ∧ s₁.filesOf q = s.filesOf q := by
    intro q hq
    apply h.kept q
    · intro hm
      exact hnew (List.mem_singleton.1 hm ▸ hq)
    · intro r hr
      exact Page.ne_of_isIn hne (hpages q hq) (r.isIn_movedTo T)
  constructor
  · intro q hq
    rcases List.mem_cons.1 hq with rfl | hq
    · obtain ⟨d, n, hd, hd'⟩ := h.moved q (.head _)
      exact ⟨d, n, hd, himage.1.trans hd'⟩
    · obtain ⟨d, n, hd, hd'⟩ := h'.moved q hq
      exact ⟨d, n, (hfirst q hq).1.symm.trans hd, hd'⟩
  · intro q hq
    rcases List.mem_cons.1 hq with rfl | hq
    · exact himage.2.trans (h.files q (.head _))
    · exact (h'.files q hq).trans (hfirst q hq).2
  · intro q hq
    rcases List.mem_cons.1 hq with rfl | hq
    · exact hlater.1.trans (h.gone q (.head _))
    · exact h'.gone q hq
  · intro q hq hother
    have hkept := h.kept q (fun hm => hq (List.mem_singleton.1 hm ▸ .head _)) fun r hr =>
      hother r (List.mem_singleton.1 hr ▸ .head _)
    have hkept' := h'.kept q (fun hm => hq (.tail p hm)) fun r hr => hother r (.tail p hr)
    exact ⟨hkept'.1.trans hkept.1, hkept'.2.trans hkept.2⟩

end Carried

/-- Renaming pages of one space one by one carries all of them over. -/
theorem carried_of_applied (hne : F ≠ T) (hpages : ∀ p ∈ pages, p.isIn F = true)
    (hnodup : pages.Nodup)
    (h : s.appliedAll (pages.map fun p => .write (.rename p (p.movedTo T))) = .ok s') :
    Carried T pages s s' := by
  induction pages generalizing s with
  | nil => exact Except.ok.inj h ▸ .refl T s
  | cons p rest ih =>
    obtain ⟨s₁, hfirst, hrest⟩ := appliedAll_cons_eq_ok.1 h
    have hp := hpages p (.head rest)
    have hin : ∀ q ∈ rest, q.isIn F = true := fun q hq => hpages q (.tail p hq)
    obtain ⟨hnew, hnodup⟩ := List.nodup_cons.1 hnodup
    have hmoved : Carried T [p] s s₁ :=
      .of_rename (Page.ne_of_isIn hne hp (p.isIn_movedTo T)) ((applied_rename s _ _).symm.trans hfirst)
    exact hmoved.cons hne hp hin hnew (ih hin hnodup hrest)

/-- Once all pages of a space have been carried over to one that was not known, it is renamed. -/
theorem SpaceRenamed.of_carried (hs : s.Coherent) (hT : s.hasSpace T = false)
    (h : Carried T (s.pagesIn F) s s') : SpaceRenamed F T s s' := by
  have hunused : ∀ q, q.isIn T = true → s.hasPage q = false := fun q => hs.hasPage_of_unknown hT
  have hlisted : ∀ p, p.isIn F = true → s.hasPage p = true → p ∈ s.pagesIn F := fun p hp hstored =>
    mem_pagesIn.2 ⟨hstored, hp⟩
  have hother : ∀ q, q.isIn F = false → s.hasPage q = true →
      s'.documents.get? q = s.documents.get? q ∧ s'.filesOf q = s.filesOf q := by
    intro q hq hstored
    apply h.kept q
    · intro hm
      exact Bool.false_ne_true (hq.symm.trans (mem_pagesIn.1 hm).2)
    · rintro p - rfl
      exact Bool.false_ne_true ((hunused _ (p.isIn_movedTo T)).symm.trans hstored)
  constructor
  · exact hunused
  · intro q
    constructor
    · intro hstored
      by_cases himage : ∃ p ∈ s.pagesIn F, q = p.movedTo T
      · obtain ⟨p, hp, rfl⟩ := himage
        exact .inr ⟨p, (mem_pagesIn.1 hp).2, (mem_pagesIn.1 hp).1, rfl⟩
      · have hout : q ∉ s.pagesIn F := by
          intro hm
          rw [hasPage_eq, h.gone q hm] at hstored
          cases hstored
        have hbefore : s.hasPage q = true := by
          rwa [hasPage_congr (h.kept q hout fun p hp he => himage ⟨p, hp, he⟩).1] at hstored
        exact .inl ⟨Bool.eq_false_iff.2 fun hq => hout (hlisted q hq hbefore), hbefore⟩
    · rintro (⟨hq, hstored⟩ | ⟨p, hp, hstored, rfl⟩)
      · rw [hasPage_congr (hother q hq hstored).1, hstored]
      · obtain ⟨d, n, _, hd'⟩ := h.moved p (hlisted p hp hstored)
        rw [hasPage_eq, hd']
        rfl
  · intro p d hp hd
    obtain ⟨e, n, he, he'⟩ := h.moved p (hlisted p hp (by rw [hasPage_eq, hd]; rfl))
    obtain rfl := Option.some.inj (hd.symm.trans he)
    exact ⟨n, he'⟩
  · exact fun p hp hstored => h.files p (hlisted p hp hstored)
  · exact fun q d hq hd => (hother q hq (by rw [hasPage_eq, hd]; rfl)).1.trans hd
  · exact fun q hq hstored => (hother q hq hstored).2

/-- A document that is carried over or stays where it is keeps its parent. -/
theorem SpaceRenamed.document_carried (h : SpaceRenamed F T s s') {d : Document}
    (hd : s.documents.get? q = some d) :
    ∃ d', s'.documents.get? (q.carried F T) = some d' ∧ d'.parent = d.parent := by
  cases hq : q.isIn F with
  | true =>
    obtain ⟨n, hd'⟩ := h.documents q d hq hd
    rw [Page.carried, if_pos hq]
    exact ⟨_, hd', rfl⟩
  | false =>
    rw [Page.carried, hq, if_neg Bool.false_ne_true]
    exact ⟨d, h.other_documents q d hq hd, rfl⟩

theorem SpaceRenamed.ne_movedTo (h : SpaceRenamed F T s s') (hp : s.hasPage p = true) (q : Page) :
    p ≠ q.movedTo T := by
  rintro rfl
  exact Bool.false_ne_true ((h.unused _ (q.isIn_movedTo T)).symm.trans hp)

/-- Of the pages that were stored, those of the old space are gone. -/
theorem SpaceRenamed.hasPage_eq_false_iff (h : SpaceRenamed F T s s') (hp : s.hasPage p = true) :
    s'.hasPage p = false ↔ p.isIn F = true := by
  rw [← Bool.not_eq_true, h.stored]
  simp [hp, h.ne_movedTo hp]

/-- A page that was stored stays what it is exactly if it is not in the space. -/
theorem SpaceRenamed.eq_carried_iff (h : SpaceRenamed F T s s') (hp : s.hasPage p = true) :
    p = p.carried F T ↔ p.isIn F = false := by
  cases hin : p.isIn F with
  | false => simp [Page.carried, hin]
  | true => simp [Page.carried, hin, h.ne_movedTo hp]

end Store

namespace Context

variable {ctx : Context} {t : Tree} {source destination : Nat} {plan : Plan} {F T : Space}
  {v w : View}

/-- A plan to move a space that is carried out to its end has renamed the pages of the space. -/
theorem Moves.applied_of_space (hF : t.kind source = .space F v) (hT : t.kind destination = .space T w)
    (h : ctx.Moves t source destination plan) (hok : (plan.execute ctx.toWorkspace).1 = .ok ()) :
    F ≠ T ∧ ctx.repository.store.hasSpace T = false ∧
      ctx.repository.store.appliedAll ((ctx.repository.store.pagesIn F).map
        fun p => .write (.rename p (p.movedTo T))) =
        .ok (plan.execute ctx.toWorkspace).2.repository.store := by
  cases h with
  | page hsource => cases hF.symm.trans hsource
  | attachment hsource => cases hF.symm.trans hsource
  | @space _ _ pages hsource hdestination hne _ hunknown _ hpages =>
    cases hF.symm.trans hsource
    cases hT.symm.trans hdestination
    obtain rfl := Repository.eq_of_asked hpages
    exact ⟨hne, hunknown, Plan.appliedAll_of_batch
      (addressed_writes (fun p => .rename p (p.movedTo T)) fun _ => trivial) hok⟩

theorem Moves.spaceRenamed (hs : ctx.repository.store.Coherent)
    (hF : t.kind source = .space F v) (hT : t.kind destination = .space T w)
    (h : ctx.Moves t source destination plan) (hok : (plan.execute ctx.toWorkspace).1 = .ok ()) :
    Store.SpaceRenamed F T ctx.repository.store
      (plan.execute ctx.toWorkspace).2.repository.store := by
  obtain ⟨hne, hunknown, happlied⟩ := h.applied_of_space hF hT hok
  refine .of_carried hs hunknown (Store.carried_of_applied hne (fun p hp => ?_) ?_ happlied)
  · exact (Store.mem_pagesIn.1 hp).2
  · exact ctx.repository.store.pagesIn_nodup F

end Context

namespace Service

/-- A rename of a space that succeeds carries every page over and destroys none. -/
theorem handle_carried_space {s : Service} {caller : Caller} {request : Request} {F T : Space}
    {v w : View} (hs : s.repository.store.Reachable)
    (hk : s.renamed? caller request = some (.space F v, .space T w))
    (hok : (s.handle caller request).1 = .ok .done) :
    Store.SpaceRenamed F T s.repository.store (s.handle caller request).2.repository.store := by
  obtain ⟨ctx, t, source, destination, plan, hrepo, _, hsource, hdestination, hmoves, hdone,
    hafter⟩ := renamed_plan hk hok
  rw [hafter, ← hrepo]
  rw [← hrepo] at hs
  exact hmoves.spaceRenamed hs.coherent hsource hdestination hdone

/-- A space of two pages, one of them with a file, is renamed; a nested space and a page of the same name
elsewhere stay where they are. -/
theorem handle_carried_space_beside_others :
    let page := fun name => Page.inSpace name (.topLevel "F")
    let nested := Page.inSpace "A" ⟨["F", "N"]⟩
    let elsewhere := Page.inSpace "A" (.topLevel "G")
    let pages := Store.ofPages [page "A", page "B", nested, elsewhere]
    let store := (pages.write (.attach ⟨page "A", "f.txt"⟩ ⟨#[7]⟩)).2
    let s := Service.new (.ofStore store) .standard
    let caller : Caller := ⟨.anonymous, .allowAll⟩
    let request := Request.rename "/spaces/F" "/spaces/T"
    store.Reachable ∧
      s.renamed? caller request = some (.space (.topLevel "F") .pages, .space (.topLevel "T") .pages) ∧
      (s.handle caller request).1 = .ok .done ∧
      Store.SpaceRenamed (.topLevel "F") (.topLevel "T") store
        (s.handle caller request).2.repository.store := by
  intro page nested elsewhere pages store s caller request
  have hs : store.Reachable := (Store.reachable_ofPages _).write _
  have hk : s.renamed? caller request =
      some (.space (.topLevel "F") .pages, .space (.topLevel "T") .pages) := by decide
  have hok : (s.handle caller request).1 = .ok .done := by
    dsimp only [page, nested, elsewhere, pages, store, s, caller, request]
    rfl
  exact ⟨hs, hk, hok, handle_carried_space hs hk hok⟩

/-! ## Parents -/

/-- A rename of a space that succeeds leaves every parent as it is: a document of which the parent was
stored, whether it moves itself or not, goes on naming that page. That is the page its parent has become
exactly if the parent is not in the space, and otherwise the document is an orphan from then on. -/
theorem handle_carried_space_parents {s : Service} {caller : Caller} {request : Request}
    {F T : Space} {v w : View} {q p : Page} {d : Document} (hs : s.repository.store.Reachable)
    (hk : s.renamed? caller request = some (.space F v, .space T w))
    (hok : (s.handle caller request).1 = .ok .done)
    (hd : s.repository.store.documents.get? q = some d) (hparent : d.parent = some p)
    (hp : s.repository.store.hasPage p = true) :
    let after := (s.handle caller request).2.repository.store
    ∃ d', after.documents.get? (q.carried F T) = some d' ∧ d'.parent = some p ∧
      (d'.parent = some (p.carried F T) ↔ p.isIn F = false) ∧
      (q.carried F T ∈ after.orphans ↔ p.isIn F = true) := by
  intro after
  obtain ⟨ctx, t, source, destination, plan, hrepo, _, hsource, hdestination, hmoves, hdone,
    hafter⟩ := renamed_plan hk hok
  rw [← hrepo] at hs hd hp
  have hrenamed := hmoves.spaceRenamed hs.coherent hsource hdestination hdone
  have hreachable : after.Reachable := by
    simp only [after, hafter]
    exact Plan.execute_reachable hs
  rw [← hafter] at hrenamed
  obtain ⟨d', hd', hparent'⟩ := hrenamed.document_carried hd
  rw [hparent] at hparent'
  refine ⟨d', hd', hparent', ?_, ?_⟩
  · rw [hparent', Option.some.injEq]
    exact hrenamed.eq_carried_iff hp
  · rw [Store.mem_orphans hreachable.coherent]
    constructor
    · rintro ⟨e, he, horphan⟩
      obtain rfl := Option.some.inj (hd'.symm.trans he)
      exact hrenamed.hasPage_eq_false_iff hp |>.1 (horphan p hparent')
    · intro hin
      refine ⟨d', hd', fun parent he => ?_⟩
      obtain rfl := Option.some.inj (hparent'.symm.trans he)
      exact hrenamed.hasPage_eq_false_iff hp |>.2 hin

/-- A page is carried over together with its parent and becomes an orphan. -/
theorem handle_carried_space_parents_orphan :
    let a := Page.inSpace "A" (.topLevel "F")
    let b := Page.inSpace "B" (.topLevel "F")
    let moved := Page.inSpace "B" (.topLevel "T")
    let store := ((Store.ofPages [a]).write (.save { Document.blank b with parent := some a })).2
    let s := Service.new (.ofStore store) .standard
    let caller : Caller := ⟨.anonymous, .allowAll⟩
    let request := Request.rename "/spaces/F" "/spaces/T"
    let after := (s.handle caller request).2.repository.store
    store.Reachable ∧
      s.renamed? caller request = some (.space (.topLevel "F") .pages, .space (.topLevel "T") .pages) ∧
      (s.handle caller request).1 = .ok .done ∧ b ∉ store.orphans ∧ moved ∈ after.orphans ∧
      ∃ d, after.documents.get? moved = some d ∧ d.parent = some a := by
  intro a b moved store s caller request after
  have hs : store.Reachable := (Store.reachable_ofPages _).write _
  have hk : s.renamed? caller request =
      some (.space (.topLevel "F") .pages, .space (.topLevel "T") .pages) := by decide
  have hok : (s.handle caller request).1 = .ok .done := by
    dsimp only [a, b, store, s, caller, request]
    rfl
  have hb : store.documents.get? b = some ({ Document.blank b with parent := some a }.savedAt 2) := by
    decide
  have ha : store.hasPage a = true := by decide
  obtain ⟨d, hd, hparent, _, horphan⟩ := handle_carried_space_parents hs hk hok hb rfl ha
  exact ⟨hs, hk, hok, by decide, horphan.2 rfl, d, hd, hparent⟩

end Service

end WikiMount
