import WikiMount.Proofs.Change.Requests
import WikiMount.Proofs.Change.Runs

/-!
# What renaming a space does to its pages

The pages of a space are carried over to another one that does not exist yet, one by one and until a
write fails. The right to edit is asked for on the new space and not on the pages that come to be in
it. At every point of the run the pages of the new space are the images of those that have left the
old one, which tells exactly when the request creates a page that the caller may not edit.
-/

namespace WikiMount

namespace Page

variable {p q : Page} {F T : Space}

theorem isIn_movedTo (p : Page) (T : Space) : (p.movedTo T).isIn T = true := by
  simp [isIn, movedTo, inSpace]

theorem ne_of_isIn (hne : F ≠ T) (hp : p.isIn F = true) (hq : q.isIn T = true) : p ≠ q := by
  rintro rfl
  simp only [isIn, beq_iff_eq] at hp hq
  exact hne (Option.some.inj (hp.symm.trans hq))

end Page

namespace Store

/-- The page has come into the store. -/
def Gained (s s' : Store) (p : Page) : Prop := s.hasPage p = false ∧ s'.hasPage p = true

/-- The page has gone from the store. -/
def Lost (s s' : Store) (p : Page) : Prop := s.hasPage p = true ∧ s'.hasPage p = false

theorem not_gained_self (s : Store) (p : Page) : ¬s.Gained s p := fun h =>
  Bool.false_ne_true (h.1.symm.trans h.2)

theorem not_lost_self (s : Store) (p : Page) : ¬s.Lost s p := fun h =>
  Bool.false_ne_true (h.2.symm.trans h.1)

/-- A store on the way from `s` to one where the pages of `F` are in `T`. -/
structure Carrying (F T : Space) (s now : Store) : Prop where
  /-- No page comes into the old space. -/
  source : ∀ p, p.isIn F = true → now.hasPage p = true → s.hasPage p = true
  /-- The new space has the images of the pages that have left the old one. -/
  destination : ∀ q, q.isIn T = true →
    (now.hasPage q = true ↔ ∃ p, p.isIn F = true ∧ s.Lost now p ∧ q = p.movedTo T)

variable {s now s' : Store} {F T : Space} {p q : Page}

theorem Carrying.start (hs : s.Coherent) (hT : s.hasSpace T = false) : Carrying F T s s := by
  constructor
  · exact fun _ _ hp => hp
  · intro q hq
    rw [hs.hasPage_of_unknown hT hq]
    constructor
    · intro h
      cases h
    · rintro ⟨p, _, ⟨hp, hp'⟩, _⟩
      rw [hp] at hp'
      exact hp'.symm

theorem Carrying.rename (h : Carrying F T s now) (hne : F ≠ T) (hp : p.isIn F = true)
    (hs : now.rename p (p.movedTo T) = .ok s') : Carrying F T s s' := by
  have himage := p.isIn_movedTo T
  have hgone := hasPage_rename_source hs (Page.ne_of_isIn hne hp himage)
  have hother : ∀ r, r.isIn F = true → r ≠ p → s'.hasPage r = now.hasPage r := fun r hr hrp =>
    hasPage_rename_of_ne hs hrp (Page.ne_of_isIn hne hr himage)
  constructor
  · intro r hr hstored
    by_cases hrp : r = p
    · rw [hrp, hgone] at hstored
      cases hstored
    · rw [hother r hr hrp] at hstored
      exact h.source r hr hstored
  · intro q hq
    by_cases hqp : q = p.movedTo T
    · subst hqp
      have hbefore := h.source p hp (hasPage_of_rename hs)
      exact ⟨fun _ => ⟨p, hp, ⟨hbefore, hgone⟩, rfl⟩, fun _ => hasPage_rename hs⟩
    · rw [hasPage_rename_of_ne hs (Page.ne_of_isIn hne hp hq).symm hqp, h.destination q hq]
      -- The page that has just left has another image, so the witnesses are the same.
      constructor
      · rintro ⟨r, hr, ⟨hr₀, hr₁⟩, rfl⟩
        have hrp : r ≠ p := fun he => hqp (by rw [he])
        exact ⟨r, hr, ⟨hr₀, by rw [hother r hr hrp, hr₁]⟩, rfl⟩
      · rintro ⟨r, hr, ⟨hr₀, hr₁⟩, rfl⟩
        have hrp : r ≠ p := fun he => hqp (by rw [he])
        rw [hother r hr hrp] at hr₁
        exact ⟨r, hr, ⟨hr₀, hr₁⟩, rfl⟩

end Store

namespace Repository

variable {r r' : Repository} {s : Store} {F T : Space} {p : Page}

theorem carrying_write (h : s.Carrying F T r.store) (hne : F ≠ T) (hp : p.isIn F = true) :
    s.Carrying F T (r.write (.rename p (p.movedTo T))).2.store := by
  apply write_invariant (s.Carrying F T) h
  exact Store.settle_invariant (s.Carrying F T) h fun _ hs => h.rename hne hp hs

theorem gone_write {q : Page} (hne : F ≠ T) (hp : p.isIn F = true)
    (h : r.store.hasPage p = false) :
    (r.write (.rename q (q.movedTo T))).2.store.hasPage p = false := by
  have hother := Page.ne_of_isIn hne hp (q.isIn_movedTo T)
  apply write_invariant (Store.hasPage · p = false) h
  apply Store.settle_invariant (Store.hasPage · p = false) h
  intro s' hs
  by_cases hpq : p = q
  · subst hpq
    exact Store.hasPage_rename_source hs hother
  · rw [Store.hasPage_rename_of_ne hs hpq hother, h]

variable {batch : Batch} {done total : Nat} {pages : List Page}

theorem carrying_run (hne : F ≠ T) (hpages : ∀ p ∈ pages, p.isIn F = true)
    (h : s.Carrying F T r.store) :
    s.Carrying F T (r.applyFrom batch done total
      (pages.map fun p => .write (.rename p (p.movedTo T)))).2.store := by
  apply applyFrom_invariant (s.Carrying F T)
  · intro item hi r' h'
    obtain ⟨p, hp, rfl⟩ := List.mem_map.1 hi
    exact carrying_write h' hne (hpages p hp)
  · exact h

/-- A run that does not fail leaves none of its pages behind. -/
theorem gone_of_run (hne : F ≠ T) (hpages : ∀ p ∈ pages, p.isIn F = true)
    (h : (r.applyFrom batch done total
      (pages.map fun p => .write (.rename p (p.movedTo T)))).1 = .ok ()) :
    ∀ p ∈ pages, (r.applyFrom batch done total
      (pages.map fun p => .write (.rename p (p.movedTo T)))).2.store.hasPage p = false := by
  induction pages generalizing r done with
  | nil =>
    intro p hp
    cases hp
  | cons page rest ih =>
    have hpage := hpages page (.head rest)
    have hrest : ∀ p ∈ rest, p.isIn F = true := fun p hp => hpages p (.tail page hp)
    simp only [List.map_cons, applyFrom, apply] at h ⊢
    split at h
    next r₁ hw =>
      have hgone : r₁.store.hasPage page = false :=
        Store.hasPage_rename_source (Store.settle_eq_ok (write_eq_ok hw))
          (Page.ne_of_isIn hne hpage (page.isIn_movedTo T))
      intro p hp
      rcases List.mem_cons.1 hp with rfl | hp
      · apply applyFrom_invariant (fun now => now.hasPage p = false)
        · intro item hi r' h'
          obtain ⟨q, _, rfl⟩ := List.mem_map.1 hi
          exact gone_write hne hpage h'
        · exact hgone
      · exact ih hrest h p hp
    · cases h

end Repository

namespace Context

variable {ctx : Context} {t : Tree} {source destination : Nat} {plan : Plan} {F T : Space}

/-- What is known of a space that is to be renamed, and what carrying out the plan comes to. -/
structure RenamesSpace (ctx : Context) (F T : Space) (plan : Plan) : Prop where
  unknown : ctx.repository.hasSpace T = false
  edit : ctx.caller.policy.grants .edit (.space T) = true
  delete : ∀ p, p.isIn F = true → ctx.repository.hasPage p = true →
    ctx.caller.policy.grants .delete (.page p) = true
  carrying : ctx.repository.store.Carrying F T (plan.execute ctx.toWorkspace).2.repository.store
  complete : (plan.execute ctx.toWorkspace).1 = .ok () → ∀ p, p.isIn F = true →
    ctx.repository.hasPage p = true →
      ctx.repository.store.Lost (plan.execute ctx.toWorkspace).2.repository.store p

theorem Moves.renamesSpace (hs : ctx.repository.store.Coherent)
    (hF : t.kind source = .space F .pages) (hT : t.kind destination = .space T .pages)
    (h : ctx.Moves t source destination plan) : ctx.RenamesSpace F T plan := by
  cases h with
  | page hsource => cases hF.symm.trans hsource
  | attachment hsource => cases hF.symm.trans hsource
  | @space _ _ pages hsource hdestination hne _ hunknown hedit hpages hcarried =>
    cases hF.symm.trans hsource
    cases hT.symm.trans hdestination
    have hlisted : ctx.repository.store.pagesIn F = pages :=
      Repository.eq_of_asked hpages
    have hmem : ∀ p, p ∈ pages ↔ ctx.repository.hasPage p = true ∧ p.isIn F = true := fun p => by
      rw [← hlisted]
      exact Store.mem_pagesIn
    have hin : ∀ p ∈ pages, p.isIn F = true := fun p hp => ((hmem p).1 hp).2
    constructor
    · exact hunknown
    · exact hedit
    · intro p hp hstored
      have hover := (hcarried p ((hmem p).2 ⟨hstored, hp⟩)).1
      exact (grants_of_overwrite hover).1 hstored
    · exact Repository.carrying_run hne hin (.start hs hunknown)
    · intro hok p hp hstored
      exact ⟨hstored, Repository.gone_of_run hne hin hok p ((hmem p).2 ⟨hstored, hp⟩)⟩

theorem RenamesSpace.gained_iff {q : Page} (h : ctx.RenamesSpace F T plan)
    (hs : ctx.repository.store.Coherent) (hq : q.isIn T = true) :
    ctx.repository.store.Gained (plan.execute ctx.toWorkspace).2.repository.store q ↔
      ∃ p, p.isIn F = true ∧ q = p.movedTo T ∧
        ctx.repository.store.Lost (plan.execute ctx.toWorkspace).2.repository.store p := by
  rw [Store.Gained, h.carrying.destination q hq]
  constructor
  · rintro ⟨_, p, hp, hlost, he⟩
    exact ⟨p, hp, he, hlost⟩
  · rintro ⟨p, hp, he, hlost⟩
    exact ⟨hs.hasPage_of_unknown h.unknown hq, p, hp, hlost, he⟩

end Context

namespace Service

/-- What renaming a space does to pages: those that have left the old space are in the new one, and
the caller holds the right to delete each of them and the right to edit the new space. No right is
asked for on the pages of the new space, so the request creates no page against the policy exactly if
the policy happens to grant the right to edit the image of every page that has left. -/
theorem handle_renamed_space {s : Service} {caller : Caller} {request : Request} {F T : Space}
    (hs : s.repository.store.Reachable)
    (hk : s.renamed? caller request = some (.space F .pages, .space T .pages)) :
    let before := s.repository.store
    let after := (s.handle caller request).2.repository.store
    (∀ q, q.isIn T = true → before.Gained after q →
      caller.policy.grants .edit (.space T) = true ∧ ∃ p, p.isIn F = true ∧ before.Lost after p ∧
        q = p.movedTo T ∧ caller.policy.grants .delete (.page p) = true) ∧
    ((∀ q, q.isIn T = true → before.Gained after q → caller.policy.grants .edit (.page q) = true) ↔
      ∀ p, p.isIn F = true → before.Lost after p →
        caller.policy.grants .edit (.page (p.movedTo T)) = true) ∧
    ((s.handle caller request).1 = .ok .done →
      ∀ p, p.isIn F = true → before.hasPage p = true → before.Lost after p) := by
  intro before after
  cases request with
  | rename path other =>
    obtain ⟨⟨e, herror⟩, hkept⟩ | ⟨ctx, t, source, destination, plan, hrepo, rfl, hkinds, hmoves,
        hanswer, hafter⟩ := s.rename_cases caller path other
    · have hsame : after = before := congrArg Repository.store hkept
      rw [hsame]
      refine ⟨fun q _ hq => ?_, ⟨fun _ p _ hp => ?_, fun _ q _ hq => ?_⟩, fun hok => ?_⟩
      · exact absurd hq (before.not_gained_self q)
      · exact absurd hp (before.not_lost_self p)
      · exact absurd hq (before.not_gained_self q)
      · simp only [handle, respond, herror, Except.map] at hok
        cases hok
    · have hsource : t.kind source = .space F .pages :=
        congrArg Prod.fst (Option.some.inj (hkinds.symm.trans hk))
      have hdestination : t.kind destination = .space T .pages :=
        congrArg Prod.snd (Option.some.inj (hkinds.symm.trans hk))
      have hbefore : before = ctx.repository.store := congrArg Repository.store hrepo.symm
      have hnow : after = (plan.execute ctx.toWorkspace).2.repository.store :=
        congrArg Repository.store hafter
      have hcoherent : ctx.repository.store.Coherent := hbefore ▸ hs.coherent
      have hren := hmoves.renamesSpace hcoherent hsource hdestination
      rw [hbefore, hnow]
      refine ⟨fun q hq hg => ?_, ⟨fun hall p hp hlost => ?_, fun hall q hq hg => ?_⟩, ?_⟩
      · obtain ⟨p, hp, he, hlost⟩ := (hren.gained_iff hcoherent hq).1 hg
        exact ⟨hren.edit, p, hp, hlost, he, hren.delete p hp hlost.1⟩
      · have himage := p.isIn_movedTo T
        exact hall _ himage ((hren.gained_iff hcoherent himage).2 ⟨p, hp, rfl, hlost⟩)
      · obtain ⟨p, hp, rfl, hlost⟩ := (hren.gained_iff hcoherent hq).1 hg
        exact hall p hp hlost
      · intro hok
        simp only [handle, respond, hanswer] at hok
        obtain ⟨_, hdone, _⟩ := Except.map_eq_ok.1 hok
        exact hren.complete hdone
  | _ => cases hk

/-- A page that the caller may not edit is created by renaming the space of another page. -/
theorem handle_renamed_space_against_policy :
    let p := Page.inSpace "A" (.topLevel "F")
    let q := Page.inSpace "A" (.topLevel "T")
    let s := Service.new (.ofStore (.ofPages [p])) .standard
    let caller : Caller := ⟨.anonymous, "guarded", fun right target =>
      !(right == .edit && target == .page q)⟩
    let request := Request.rename "/spaces/F" "/spaces/T"
    let after := (s.handle caller request).2.repository.store
    s.repository.store.Reachable ∧
      s.renamed? caller request = some (.space (.topLevel "F") .pages, .space (.topLevel "T") .pages) ∧
      s.repository.store.Lost after p ∧ s.repository.store.Gained after q ∧
      caller.policy.grants .edit (.page q) = false := by
  refine ⟨Store.reachable_ofPages _, rfl, ?_, ⟨rfl, rfl⟩, by decide⟩
  exact (handle_renamed_space (Store.reachable_ofPages _) rfl).2.2 rfl _ rfl rfl

end Service

end WikiMount
