import WikiMount.Proofs.Change.Faultless
import WikiMount.Proofs.Node.SecondLookup

/-!
# Renaming what is not there

At the last token of a path a rename finds things that may not be there, and leaves it to the storage to
miss them. An attachment is found only if its page holds it. Of a space that is not known there is no page
to carry over, so its rename is answered as done and changes nothing. A page that is not stored passes all
the checks that a stored one passes, and then it is the storage that does not find it. While nothing is
wrong with the repository this is the one way in which a rename comes to an internal error.
-/

namespace WikiMount

/-- All that is asked for before a page is renamed. -/
structure Repository.AdmitsRename (r : Repository) (caller : Caller) (page destination : Page) :
    Prop where
  distinct : page ≠ destination
  editable : caller.policy.grants .edit (.page page) = true
  addressed : ∃ space, destination.space = some space ∧ r.hasSpace space = true
  foreign : caller.principal.owns page = false
  replaceable : caller.policy.grants (if r.hasPage destination then .delete else .edit)
    (.page destination) = true
  children : ∀ child ∈ r.store.childrenOf page, child ≠ page →
    caller.policy.grants .edit (.page child) = true

namespace Repository

variable {r : Repository} {source destination : Page}

/-- A page that is not stored is not found, and nothing is changed. -/
theorem Healthy.renamePage_missing (hr : r.Healthy) (hspace : destination.space.isSome = true)
    (hmissing : r.hasPage source = false) (children : List Page) :
    r.renamePage source destination children =
      (.error (.internal (.storage (.notFound source.text))), r) := by
  have hnone : r.store.documents.get? source = none :=
    Option.isNone_iff_eq_none.1 (Option.isSome_eq_false_iff.1 hmissing)
  obtain ⟨space, hspace⟩ := Option.isSome_iff_exists.1 hspace
  have hstore : (r.store.write (.rename source destination)).1 =
      .error (.notFound source.text) := by
    simp only [Store.write, Store.rename, Page.requireSpace_eq_ok.2 hspace, hnone, Store.settle]
  have hanswer : (r.write (.rename source destination)).1 = .error (.notFound source.text) :=
    (congrArg Prod.fst (hr.write_eq _)).trans hstore
  have hwrite : r.write (.rename source destination) = (.error (.notFound source.text), r) :=
    Prod.ext hanswer (write_error trivial hanswer)
  simp only [renamePage, perform, hwrite, viewed, ViewError.ofStorage]

end Repository

namespace Context

variable {ctx : Context} {t : Tree} {source destination : Nat} {path other : String}

/-! ## Planning -/

theorem errsOnly_checkAllCarried (space : Space) (pages : List Page) :
    ErrsOnly ViewError.IsRejection (ctx.checkAllCarried space pages) := by
  have hone : ∀ page, ErrsOnly ViewError.IsRejection (ctx.checkCarried space page) := by
    intro page
    unfold checkCarried
    split
    next e he => exact errsOnly_error.2 (errsOnly_require _ _ e he)
    · split <;> simp [ViewError.IsRejection]
  induction pages with
  | nil => exact errsOnly_ok ()
  | cons page rest ih =>
    simp only [checkAllCarried]
    split
    next e he => exact errsOnly_error.2 (hone page e he)
    · exact ih

theorem errsOnly_planMovePage (hworking : ctx.repository.broken = []) (page other : Page) :
    ErrsOnly ViewError.IsRejection (ctx.planMovePage page other) := by
  refine .bind (errsOnly_require _ _) fun _ _ => .bind ?_ fun space _ => ?_
  · cases other.requireSpace with
    | error e => exact errsOnly_error.2 trivial
    | ok space => exact errsOnly_ok space
  · refine .guard trivial (.guard trivial ?_)
    refine .bind (errsOnly_require _ _) fun _ _ => ?_
    rw [Repository.childrenOf, Repository.asked_of_working hworking]
    exact .bind (errsOnly_ok _) fun _ _ => .bind (errsOnly_requireAll _ _) fun _ _ => errsOnly_ok _

theorem errsOnly_planMoveSpace (hworking : ctx.repository.broken = []) (space other : Space) :
    ErrsOnly ViewError.IsRejection (ctx.planMoveSpace space other) := by
  refine .guard trivial (.bind (errsOnly_require _ _) fun _ _ => ?_)
  rw [Repository.pagesIn, Repository.asked_of_working hworking]
  exact .bind (errsOnly_ok _) fun _ _ =>
    .bind (errsOnly_checkAllCarried _ _) fun _ _ => errsOnly_ok _

theorem errsOnly_planMove (hworking : ctx.repository.broken = []) (t : Tree)
    (source destination : Nat) :
    ErrsOnly ViewError.IsRejection (ctx.planMove t source destination) := by
  unfold planMove
  split
  · exact errsOnly_error.2 trivial
  · split
    · exact errsOnly_error.2 trivial
    · split
      · exact errsOnly_planMovePage hworking _ _
      · split
        · exact errsOnly_planMoveSpace hworking _ _
        · exact errsOnly_error.2 trivial
      · exact .bind (errsOnly_require _ _) fun _ _ =>
          .bind (errsOnly_require _ _) fun _ _ => errsOnly_ok _
      · exact errsOnly_error.2 trivial

/-- Where all is granted that is asked for, the rename of a page is planned. -/
theorem planMovePage_of_admits (hworking : ctx.repository.broken = []) {page new : Page}
    (h : ctx.repository.AdmitsRename ctx.caller page new) :
    ∃ children, ctx.planMovePage page new = .ok (.renamePage page new children) := by
  obtain ⟨space, hspace, hknown⟩ := h.addressed
  let children := ctx.repository.store.childrenOf page
  let others := children.filter (· != page)
  have hchildren : ctx.repository.childrenOf page = .ok children :=
    Repository.asked_of_working hworking
  have hall : ctx.requireAll .edit others = .ok () := by
    refine requireAll_eq_ok.2 fun child hchild => ?_
    obtain ⟨hlisted, hne⟩ := List.mem_filter.1 hchild
    exact h.children child hlisted (by simpa using hne)
  refine ⟨others ++ if children.contains page then [new] else [], ?_⟩
  refine Except.bind_eq_ok.2 ⟨(), require_eq_ok.2 h.editable, ?_⟩
  rw [Page.requireSpace_eq_ok.2 hspace]
  refine Except.bind_eq_ok.2 ⟨space, rfl, ?_⟩
  simp only [hknown, h.foreign, Bool.not_true, Bool.false_eq_true, if_false]
  refine Except.bind_eq_ok.2 ⟨(), require_eq_ok.2 h.replaceable, ?_⟩
  refine Except.bind_eq_ok.2 ⟨children, viewed_eq_ok.2 hchildren, ?_⟩
  exact Except.bind_eq_ok.2 ⟨(), hall, rfl⟩

theorem planMove_of_admits (hworking : ctx.repository.broken = []) {page new : Page}
    (hsource : t.kind source = .page page) (hdestination : t.kind destination = .page new)
    (h : ctx.repository.AdmitsRename ctx.caller page new) :
    ∃ children, ctx.planMove t source destination = .ok (.renamePage page new children) := by
  obtain ⟨children, hplan⟩ := planMovePage_of_admits hworking h
  refine ⟨children, ?_⟩
  have hne : NodeKind.page page ≠ .page new := fun he => h.distinct (NodeKind.page.inj he)
  simp only [planMove, hsource, hdestination, if_neg hne, hplan]
  rfl

/-- The rename of a page is planned only where all is granted that is asked for. -/
theorem Moves.admits {plan : Plan} {page : Page} (hsource : t.kind source = .page page)
    (h : ctx.Moves t source destination plan) :
    ∃ new children, t.kind destination = .page new ∧ plan = .renamePage page new children ∧
      ctx.repository.AdmitsRename ctx.caller page new := by
  cases h with
  | @page _ new space children hfound hdestination hne hedit hspace hknown howner hover hchildren
      hall =>
    cases hsource.symm.trans hfound
    obtain rfl := Repository.eq_of_asked hchildren
    refine ⟨new, _, hdestination, rfl, hne, hedit, ⟨space, hspace, hknown⟩, howner, hover, ?_⟩
    exact fun child hchild hother => hall child (List.mem_filter.2 ⟨hchild, by simpa using hother⟩)
  | space hfound => cases hsource.symm.trans hfound
  | attachment hfound => cases hsource.symm.trans hfound

/-- What a rename that has been planned is about is there, unless it is a page. -/
theorem Moves.grounded {plan : Plan} (hs : ctx.repository.store.Coherent)
    (hstored : ∀ page, t.kind source = .page page → ctx.repository.hasPage page = true)
    (hheld : ∀ a, t.kind source = .attachment a →
      a.file ∈ (ctx.repository.store.filesOf a.page).keys)
    (h : ctx.Moves t source destination plan) : plan.Grounded ctx.repository.store := by
  cases h with
  | @page page new space children hsource _ _ _ hspace _ _ _ hchildren _ =>
    obtain rfl := Repository.eq_of_asked hchildren
    refine ⟨hstored page hsource, fun renamed hrenamed => ?_⟩
    refine Store.exists_appliedAll_reparent (hs.rename hrenamed) fun child hchild => ?_
    rcases List.mem_append.1 hchild with hchild | hchild
    · have hlisted := Store.hasPage_of_mem_childrenOf hs (List.mem_filter.1 hchild).1
      obtain ⟨own, hown⟩ := hs.space_of_stored hlisted
      rw [hown]
      rfl
    · split at hchild
      · obtain rfl := List.mem_singleton.1 hchild
        rw [hspace]
        rfl
      · cases hchild
  | @space space new pages _ _ hne _ _ _ hpages =>
    obtain rfl := Repository.eq_of_asked hpages
    exact Store.exists_appliedAll_rename hne (ctx.repository.store.pagesIn_nodup space) fun p hp =>
      Store.mem_pagesIn.1 hp
  | attachment hsource => exact hheld _ hsource

theorem errsOnly_lookupTwo (hworking : ctx.repository.broken = []) (path other : String) :
    ErrsOnly ViewError.IsBadRequest (ctx.lookupTwo path other) := by
  unfold lookupTwo
  split
  next e he => exact errsOnly_error.2 (errsOnly_lookup hworking path e he)
  next id t _ =>
    have hother := errsOnly_resolvePath hworking t other
    split
    · exact errsOnly_ok _
    next e _ hr =>
      rw [hr] at hother
      exact errsOnly_error.2 (errsOnly_error.1 hother)

/-! ## Renaming -/

/-- A rename ends in an internal error just where the page it finds is not stored and all is granted that
is asked for. -/
theorem rename_fault_iff (hr : ctx.repository.Healthy)
    (hheld : ∀ source destination t a, ctx.lookupTwo path other = .ok (source, destination, t) →
      t.kind source = .attachment a → a.file ∈ (ctx.repository.store.filesOf a.page).keys)
    {fault : Fault} :
    (ctx.rename path other).1 = .error (.internal fault) ↔ ∃ source destination t page new,
      ctx.lookupTwo path other = .ok (source, destination, t) ∧ t.kind source = .page page ∧
      t.kind destination = .page new ∧ ctx.repository.AdmitsRename ctx.caller page new ∧
      ctx.repository.hasPage page = false ∧ fault = .storage (.notFound page.text) := by
  constructor
  · intro h
    simp only [rename] at h
    split at h
    next e he =>
      obtain rfl := Except.error.inj h
      cases errsOnly_lookupTwo hr.working path other _ he
    next source destination t hl =>
      cases hplan : ctx.planMove t source destination with
      | error e =>
        rw [move, hplan] at h
        obtain rfl := Except.error.inj h
        cases errsOnly_planMove hr.working t source destination _ hplan
      | ok plan =>
        rw [move, hplan, carryOut_result] at h
        have hmoves := moves_of_planMove hplan
        by_cases hstored : ∀ page, t.kind source = .page page → ctx.repository.hasPage page = true
        · have hgrounded := hmoves.grounded hr.reachable.coherent hstored
            (hheld source destination t · hl)
          cases Plan.errsOnly_execute hr hgrounded _ h
        · push Not at hstored
          obtain ⟨page, hsource, hmissing⟩ := hstored
          obtain ⟨new, children, hdestination, rfl, hadmits⟩ := hmoves.admits hsource
          obtain ⟨space, hspace, _⟩ := hadmits.addressed
          have hunstored := Bool.eq_false_iff.2 hmissing
          have hexecute := hr.renamePage_missing (by rw [hspace]; rfl) hunstored children
          simp only [Plan.execute, Workspace.withRepository, hexecute] at h
          cases h
          exact ⟨source, destination, t, page, new, hl, hsource, hdestination, hadmits, hunstored, rfl⟩
  · rintro ⟨source, destination, t, page, new, hl, hsource, hdestination, hadmits, hmissing, rfl⟩
    obtain ⟨space, hspace, _⟩ := hadmits.addressed
    obtain ⟨children, hplan⟩ := planMove_of_admits hr.working hsource hdestination hadmits
    have hexecute := hr.renamePage_missing (by rw [hspace]; rfl) hmissing children
    simp only [rename, hl, move, hplan, carryOut_result, Plan.execute, Workspace.withRepository,
      hexecute]

/-- Of a space that is not known there is nothing to carry over. -/
theorem Moves.execute_of_unknown {plan : Plan} {F : Space} {v : View}
    (hs : ctx.repository.store.Coherent) (hsource : t.kind source = .space F v)
    (hunknown : ctx.repository.hasSpace F = false) (h : ctx.Moves t source destination plan) :
    plan.execute ctx.toWorkspace = (.ok (), ctx.toWorkspace) := by
  cases h with
  | page hfound => cases hsource.symm.trans hfound
  | attachment hfound => cases hsource.symm.trans hfound
  | @space _ new pages hfound _ _ _ _ _ hpages =>
    cases hsource.symm.trans hfound
    obtain rfl := Repository.eq_of_asked hpages
    have hnone : ctx.repository.store.pagesIn F = [] := by
      refine List.eq_nil_iff_forall_not_mem.2 fun p hp => ?_
      obtain ⟨hstored, hin⟩ := Store.mem_pagesIn.1 hp
      exact Bool.false_ne_true ((hs.hasPage_of_unknown hunknown hin).symm.trans hstored)
    rw [hnone]
    rfl

end Context

namespace Service

variable {s : Service} {caller : Caller} {path other : String}

/-- The attachment that a rename moves is held by its page. -/
theorem held_of_renamed {a : Attachment} {kind : NodeKind} (hworking : s.repository.broken = [])
    (hk : s.renamed? caller (.rename path other) = some (.attachment a, kind)) :
    a.file ∈ (s.repository.store.filesOf a.page).keys := by
  cases hmoving : (s.context caller (.move .unknown)).moveSourceAt path with
  | error e => simp [renamed?, hmoving] at hk
  | ok moving =>
    obtain ⟨source, destination, t, hl, hsource, _⟩ :=
      (renamed?_eq_some_iff (s.context caller (.move moving)) hmoving rfl rfl).1 hk
    obtain ⟨⟨id, t₀⟩, hfound, rfl⟩ := Except.map_eq_ok.1 hmoving
    obtain ⟨t₁, hagain, hkept⟩ := Context.lookupTwo_source hl
    have hfirst : ((s.context caller .read).withMove .unknown).lookup path = .ok (id, t₀) := hfound
    obtain ⟨t', hagain', hsame, hfull⟩ := Context.lookup_again hfirst
    obtain ⟨rfl, rfl⟩ := Prod.mk.inj (Except.ok.inj (hagain.symm.trans hagain'))
    rw [hsource] at hkept
    have hnot : ∀ space page, ¬t₀.NamedInFull source space page := by
      intro space page hn
      cases hkept.symm.trans (hfull space page hn)
    exact Context.held_of_lookup hworking rfl (by simp [context, Intent.moveSource?]) hfound
      ((hsame.2 hnot).symm.trans hkept)

theorem rename_fault_iff (hr : s.repository.Healthy) {fault : Fault} :
    (s.rename caller path other).1 = .error (.internal fault) ↔ ∃ page new,
      s.renamed? caller (.rename path other) = some (.page page, .page new) ∧
        s.repository.AdmitsRename caller page new ∧ s.repository.hasPage page = false ∧
        fault = .storage (.notFound page.text) := by
  obtain ⟨e, he, hanswer, _⟩ | ⟨moving, ctx, hmoving, hrepo, hcaller, hintent, hanswer, _⟩ :=
    s.rename_runs caller path other
  · have hlook : ErrsOnly ViewError.IsBadRequest
        ((s.context caller (.move .unknown)).moveSourceAt path) :=
      errsOnly_map.2 (Context.errsOnly_lookup hr.working path)
    rw [hanswer]
    constructor
    · intro h
      obtain rfl := Except.error.inj h
      cases hlook _ he
    · rintro ⟨page, new, hk, _⟩
      simp [renamed?, he] at hk
  · rw [hanswer, Context.rename_fault_iff (hrepo ▸ hr), hrepo, hcaller]
    · constructor
      · rintro ⟨source, destination, t, page, new, hl, hsource, hdestination, h⟩
        have hk := (renamed?_eq_some_iff ctx hmoving hrepo hintent).2
          ⟨source, destination, t, hl, hsource, hdestination⟩
        exact ⟨page, new, hk, h⟩
      · rintro ⟨page, new, hk, h⟩
        obtain ⟨source, destination, t, hl, hsource, hdestination⟩ :=
          (renamed?_eq_some_iff ctx hmoving hrepo hintent).1 hk
        exact ⟨source, destination, t, page, new, hl, hsource, hdestination, h⟩
    · intro source destination t a hl hsource
      rw [hrepo]
      exact held_of_renamed hr.working ((renamed?_eq_some_iff ctx hmoving hrepo hintent).2
        ⟨source, destination, t, hl, hsource, rfl⟩)

/-- A rename of which the repository is not at fault ends in an internal error just where the page at the
source is not stored and all is granted that is asked for: the storage does not find that page, and nothing
is changed. The rename of a space that is not known changes nothing where it is answered as done, and an
attachment that its page does not hold is not found at the source. -/
theorem handle_rename_faults (hr : s.repository.Healthy) (caller : Caller) (path other : String) :
    let request := Request.rename path other
    let result := s.handle caller request
    (∀ fault, result.1 = .error (.internal fault) ↔ ∃ page new,
      s.renamed? caller request = some (.page page, .page new) ∧
        s.repository.AdmitsRename caller page new ∧ s.repository.hasPage page = false ∧
        fault = .storage (.notFound page.text)) ∧
    (∀ fault, result.1 = .error (.internal fault) → result.2.repository = s.repository) ∧
    (∀ F T v w, s.renamed? caller request = some (.space F v, .space T w) →
      s.repository.hasSpace F = false → result.1 = .ok .done →
      result.2.repository = s.repository) ∧
    ∀ a kind, s.renamed? caller request = some (.attachment a, kind) →
      a.file ∈ (s.repository.store.filesOf a.page).keys := by
  intro request result
  have hfaults : ∀ fault, result.1 = .error (.internal fault) ↔ ∃ page new,
      s.renamed? caller request = some (.page page, .page new) ∧
        s.repository.AdmitsRename caller page new ∧ s.repository.hasPage page = false ∧
        fault = .storage (.notFound page.text) := by
    intro fault
    simp only [result, request, handle, respond, Except.map_eq_error]
    exact rename_fault_iff hr
  refine ⟨hfaults, fun fault h => ?_, fun F T v w hk hunknown hok => ?_, fun a kind =>
    held_of_renamed hr.working⟩
  · obtain ⟨page, _, _, _, _, rfl⟩ := (hfaults fault).1 h
    exact (s.handle_tells caller request).elsewhere _ h (by simp)
  · obtain ⟨ctx, t, source, destination, plan, hrepo, _, hsource, _, hmoves, _, hafter⟩ :=
      renamed_plan hk hok
    have hcoherent : ctx.repository.store.Coherent := hrepo ▸ hr.reachable.coherent
    rw [hafter, hmoves.execute_of_unknown hcoherent hsource (hrepo ▸ hunknown)]
    exact hrepo

/-- In a letter group a page is found that is not stored, and at the top a space that is not known. -/
theorem handle_rename_faults_missing :
    let page := fun name => Page.inSpace name (.topLevel "Main")
    let s := Service.new (.ofStore (.ofPages [page "A"])) .standard
    let caller : Caller := ⟨.anonymous, .allowAll⟩
    let request := Request.rename "/spaces/Main/_B_/Bx" "/spaces/Main/C"
    let other := Request.rename "/spaces/Nope" "/spaces/New"
    s.repository.Healthy ∧
      (s.handle caller request).1 = .error (.internal (.storage (.notFound (page "Bx").text))) ∧
      (s.handle caller request).2.repository = s.repository ∧
      (s.handle caller other).1 = .ok .done ∧ (s.handle caller other).2.repository = s.repository := by
  intro page s caller request other
  have hr : s.repository.Healthy := Repository.healthy_ofStore (Store.reachable_ofPages _)
  have hk : s.renamed? caller request = some (.page (page "Bx"), .page (page "C")) := by decide
  have hadmits : s.repository.AdmitsRename caller (page "Bx") (page "C") := by
    refine ⟨by decide, rfl, ⟨.topLevel "Main", rfl, by decide⟩, rfl, rfl, fun _ _ _ => rfl⟩
  obtain ⟨hfault, hkept, _, _⟩ := handle_rename_faults hr caller "/spaces/Main/_B_/Bx" "/spaces/Main/C"
  have hanswer := (hfault _).2 ⟨page "Bx", page "C", hk, hadmits, by decide, rfl⟩
  have hspaces : s.renamed? caller other =
      some (.space (.topLevel "Nope") .pages, .space (.topLevel "New") .pages) := by decide
  have hdone : (s.handle caller other).1 = .ok .done := by
    dsimp only [page, s, caller, other]
    rfl
  obtain ⟨_, _, hunchanged, _⟩ := handle_rename_faults hr caller "/spaces/Nope" "/spaces/New"
  exact ⟨hr, hanswer, hkept _ hanswer, hdone, hunchanged _ _ _ _ hspaces (by decide) hdone⟩

end Service

end WikiMount
