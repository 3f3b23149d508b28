import WikiMount.Change.Move
import WikiMount.Change.Remove
import WikiMount.Proofs.Node.Decoding
import WikiMount.Proofs.Storage.Writes

/-!
# What changes are planned

Planning a change makes every check the change needs. The relations of this module list what a plan
can be once planning has succeeded, each form with the checks that have been passed on the way to it.
They are the only facts about planning that the theory of changes uses.
-/

namespace WikiMount

theorem Except.bind_eq_ok {ε α β : Type} {f : α → Except ε β} {x : Except ε α} {b : β} :
    (x >>= f) = .ok b ↔ ∃ a, x = .ok a ∧ f a = .ok b := by
  cases x <;> simp [bind, Except.bind]

namespace Context

variable {ctx : Context} {t : Tree} {dir child source destination : Nat} {plan : Plan}

/-! ## Rights -/

theorem require_eq_ok {right : Right} {target : Entity} :
    ctx.require right target = .ok () ↔ ctx.holds right target = true := by
  simp only [require]
  split <;> simp_all

theorem requireAll_eq_ok {right : Right} {pages : List Page} :
    ctx.requireAll right pages = .ok () ↔ ∀ p ∈ pages, ctx.holds right (.page p) = true := by
  induction pages with
  | nil => simp [requireAll]
  | cons page rest ih =>
    cases hr : ctx.require right (.page page) with
    | error e =>
      have hnot : ¬ctx.holds right (.page page) = true := fun hh => by
        rw [require_eq_ok.2 hh] at hr
        cases hr
      simp [requireAll, hr, hnot]
    | ok _ => simp [requireAll, hr, ih, require_eq_ok.1 hr]

theorem checkAllCarried_eq_ok {space : Space} {pages : List Page} :
    ctx.checkAllCarried space pages = .ok () ↔
      ∀ p ∈ pages, ctx.holds .overwrite (.page p) = true ∧ ctx.caller.principal.owns p = false := by
  induction pages with
  | nil => simp [checkAllCarried]
  | cons page rest ih =>
    have hone : ctx.checkCarried space page = .ok () ↔
        ctx.holds .overwrite (.page page) = true ∧ ctx.caller.principal.owns page = false := by
      cases hr : ctx.require .overwrite (.page page) with
      | error e =>
        have hnot : ¬ctx.holds .overwrite (.page page) = true := fun hh => by
          rw [require_eq_ok.2 hh] at hr
          cases hr
        simp [checkCarried, hr, hnot]
      | ok _ => simp [checkCarried, hr, require_eq_ok.1 hr]
    cases hr : ctx.checkCarried space page with
    | error e => simp [checkAllCarried, hr, ← hone]
    | ok _ => simp [checkAllCarried, hr, ih, hone.1 hr]

/-- Who may overwrite a page may delete it where it is stored and edit it where it is not. -/
theorem grants_of_overwrite {page : Page} (h : ctx.holds .overwrite (.page page) = true) :
    (ctx.repository.hasPage page = true → ctx.caller.policy.grants .delete (.page page) = true) ∧
      (ctx.repository.hasPage page = false → ctx.caller.policy.grants .edit (.page page) = true) := by
  simp only [holds, effectiveRight] at h
  constructor
  · intro hp
    rwa [hp, if_pos rfl] at h
  · intro hp
    rwa [hp, if_neg Bool.false_ne_true] at h

/-! ## Adding -/

/-- What adding a node to the directory that answers for its parent comes to. -/
inductive Adds (ctx : Context) (t : Tree) (dir child : Nat) (content : Option Bytes) : Plan → Prop
  | scratch {name} (hchild : t.kind child = .scratch name) :
      Adds ctx t dir child content (.writeScratch (t.path child) (content.getD .empty))
  | below {page new d} (hdir : t.kind dir = .page page) (hchild : t.kind child = .page new)
      (hedit : ctx.holds .edit (.page page) = true) (hnew : ctx.holds .edit (.page new) = true)
      (hd : ctx.placeholder new = .ok d) :
      Adds ctx t dir child content (.write (.save { d with parent := some page }))
  | text {page owner data text d} (hdir : t.kind dir = .page page)
      (hchild : t.kind child = .wikiFile owner .text)
      (hedit : ctx.holds .edit (.page page) = true) (hdata : content = some data)
      (htext : String.fromUTF8? data = some text) (hd : t.document ctx.repository dir = .ok d) :
      Adds ctx t dir child content (.saveText dir d text)
  | attach {page a data} (hdir : t.kind dir = .page page) (hchild : t.kind child = .attachment a)
      (hedit : ctx.holds .edit (.page page) = true) (hdata : content = some data) :
      Adds ctx t dir child content (.write (.attach a data))
  | inSpace {space page d} (hdir : t.kind dir = .space space .pages)
      (hchild : t.kind child = .page page) (hedit : ctx.holds .edit (.page page) = true)
      (hd : ctx.placeholder page = .ok d) : Adds ctx t dir child content (.write (.save d))
  | home {space view d} (hdir : t.kind dir = .baseView .pages)
      (hchild : t.kind child = .space space view)
      (hedit : ctx.holds .edit (.page (.inSpace ctx.config.homePage space)) = true)
      (hd : ctx.placeholder (.inSpace ctx.config.homePage space) = .ok d) :
      Adds ctx t dir child content (.write (.save d))

variable {content : Option Bytes}

theorem planPage_eq_ok {page : Page} {parent : Document → Option Page}
    (h : ctx.planPage page parent = .ok plan) :
    ctx.holds .edit (.page page) = true ∧
      ∃ d, ctx.placeholder page = .ok d ∧ plan = .write (.save { d with parent := parent d }) := by
  simp only [planPage] at h
  obtain ⟨_, hr, h⟩ := Except.bind_eq_ok.1 h
  obtain ⟨d, hd, h⟩ := Except.bind_eq_ok.1 h
  exact ⟨require_eq_ok.1 hr, d, hd, (Except.ok.inj h).symm⟩

theorem planScratchWrite_eq_ok {path : String} (h : ctx.planScratchWrite path content = .ok plan) :
    plan = .writeScratch path (content.getD .empty) := by
  simp only [planScratchWrite] at h
  obtain ⟨_, _, h⟩ := Except.bind_eq_ok.1 h
  exact (Except.ok.inj h).symm

theorem planText_eq_ok (h : ctx.planText t dir content = .ok plan) :
    ∃ data text d, content = some data ∧ String.fromUTF8? data = some text ∧
      t.document ctx.repository dir = .ok d ∧ plan = .saveText dir d text := by
  simp only [planText] at h
  split at h
  · cases h
  next data =>
    split at h
    · cases h
    next text htext =>
      obtain ⟨d, hd, rfl⟩ := Except.map_eq_ok.1 h
      exact ⟨data, text, d, rfl, htext, hd, rfl⟩

private theorem adds_of_planAddToPage {page : Page} (hdir : t.kind dir = .page page)
    (h : ctx.planAddToPage t dir page child content = .ok plan) :
    ctx.Adds t dir child content plan := by
  simp only [planAddToPage] at h
  obtain ⟨_, hr, h⟩ := Except.bind_eq_ok.1 h
  have hedit := require_eq_ok.1 hr
  split at h
  next hchild => exact planScratchWrite_eq_ok h ▸ .scratch hchild
  next new hchild =>
    obtain ⟨hnew, d, hd, rfl⟩ := planPage_eq_ok h
    exact .below hdir hchild hedit hnew hd
  · cases h
  next hchild =>
    obtain ⟨data, text, d, hdata, htext, hd, rfl⟩ := planText_eq_ok h
    exact .text hdir hchild hedit hdata htext hd
  next a hchild =>
    split at h
    · cases h
    next data =>
      exact Except.ok.inj h ▸ .attach hdir hchild hedit rfl
  · cases h

theorem adds_of_planAddTo (h : ctx.planAddTo t dir child content = .ok plan) :
    ctx.Adds t dir child content plan := by
  simp only [planAddTo] at h
  split at h
  next page hdir => exact adds_of_planAddToPage hdir h
  next hchild _ => exact planScratchWrite_eq_ok h ▸ .scratch hchild
  next space page hdir hchild =>
    obtain ⟨hedit, d, hd, rfl⟩ := planPage_eq_ok h
    exact .inSpace hdir hchild hedit hd
  next space view hdir hchild =>
    obtain ⟨hedit, d, hd, rfl⟩ := planPage_eq_ok h
    exact .home hdir hchild hedit hd
  · cases h

theorem planAdd_eq_ok {node : Nat} (h : ctx.planAdd t node child content = .ok plan) :
    ∃ dir, t.directory node child = .ok dir ∧ ctx.Adds t dir child content plan := by
  simp only [planAdd] at h
  split at h
  · cases h
  · split at h
    · cases h
    next dir hdir => exact ⟨dir, hdir, adds_of_planAddTo h⟩

/-! ## Removing -/

/-- What removing a node from the directory that answers for its parent comes to. -/
inductive Removes (ctx : Context) (t : Tree) (dir child : Nat) : Plan → Prop
  | scratch {name scratch} (hchild : t.kind child = .scratch name) (hs : ctx.scratch = some scratch)
      (hc : scratch.contains (t.path child) = true) :
      Removes ctx t dir child (.removeScratch (t.path child))
  | wikiFile {page owner format} (hdir : t.kind dir = .page page)
      (hchild : t.kind child = .wikiFile owner format)
      (hedit : ctx.holds .edit (.page page) = true) (hdelete : ctx.holds .delete (.page page) = true) :
      Removes ctx t dir child .nothing
  | attachment {page a} (hdir : t.kind dir = .page page) (hchild : t.kind child = .attachment a)
      (hedit : ctx.holds .edit (.page page) = true) : Removes ctx t dir child (.write (.detach a))
  | below {page removed} (hdir : t.kind dir = .page page) (hchild : t.kind child = .page removed)
      (hedit : ctx.holds .edit (.page page) = true)
      (hdelete : ctx.holds .delete (.page removed) = true) :
      Removes ctx t dir child
        (if ctx.repository.hasPage removed then .write (.delete removed) else .nothing)
  | inSpace {space removed} (hdir : t.kind dir = .space space .pages)
      (hchild : t.kind child = .page removed) (hdelete : ctx.holds .delete (.page removed) = true) :
      Removes ctx t dir child
        (if ctx.repository.hasPage removed then .write (.delete removed) else .nothing)
  | group {space own group pages} (hdir : t.kind dir = .space space .pages)
      (hchild : t.kind child = .pageGroup own group)
      (hpages : ctx.repository.pagesBeginning space group.key = .ok pages)
      (hdelete : ∀ p ∈ pages, ctx.holds .delete (.page p) = true) :
      Removes ctx t dir child
        (.batch (.deleteGroup (t.path child)) (pages.map fun p => .write (.delete p)))
  | space {space view pages} (hdir : t.kind dir = .baseView .pages)
      (hchild : t.kind child = .space space view) (hpages : ctx.repository.pagesIn space = .ok pages)
      (hdelete : ∀ p ∈ pages, ctx.holds .delete (.page p) = true) :
      Removes ctx t dir child (.batch (.deleteSpace space) (pages.map fun p => .write (.delete p)))

theorem viewed_eq_ok {α : Type} {x : Except StorageError α} {a : α} :
    viewed x = .ok a ↔ x = .ok a := by
  cases x <;> simp [viewed]

theorem planScratchRemove_eq_ok {path : String} (h : ctx.planScratchRemove path = .ok plan) :
    ∃ scratch, ctx.scratch = some scratch ∧ scratch.contains path = true ∧
      plan = .removeScratch path := by
  simp only [planScratchRemove, requireScratch] at h
  cases hs : ctx.scratch with
  | none => simp [hs] at h
  | some scratch =>
    simp only [hs] at h
    split at h
    next hc => exact ⟨scratch, rfl, hc, (Except.ok.inj h).symm⟩
    · cases h

theorem planDelete_eq_ok {page : Page} (h : ctx.planDelete page = .ok plan) :
    ctx.holds .delete (.page page) = true ∧
      plan = if ctx.repository.hasPage page then .write (.delete page) else .nothing := by
  simp only [planDelete] at h
  split at h
  · cases h
  next hr => exact ⟨require_eq_ok.1 hr, (Except.ok.inj h).symm⟩

theorem planDeleteAll_eq_ok {batch : Batch} {answer : Except StorageError (List Page)}
    (h : ctx.planDeleteAll batch answer = .ok plan) :
    ∃ pages, answer = .ok pages ∧ (∀ p ∈ pages, ctx.holds .delete (.page p) = true) ∧
      plan = .batch batch (pages.map fun p => .write (.delete p)) := by
  simp only [planDeleteAll] at h
  obtain ⟨pages, hp, h⟩ := Except.bind_eq_ok.1 h
  obtain ⟨_, hr, h⟩ := Except.bind_eq_ok.1 h
  exact ⟨pages, viewed_eq_ok.1 hp, requireAll_eq_ok.1 hr, (Except.ok.inj h).symm⟩

private theorem removes_of_planRemoveFromPage {page : Page} (hdir : t.kind dir = .page page)
    (h : ctx.planRemoveFromPage t page child = .ok plan) : ctx.Removes t dir child plan := by
  simp only [planRemoveFromPage] at h
  obtain ⟨_, hr, h⟩ := Except.bind_eq_ok.1 h
  have hedit := require_eq_ok.1 hr
  split at h
  next hchild =>
    obtain ⟨scratch, hs, hc, rfl⟩ := planScratchRemove_eq_ok h
    exact .scratch hchild hs hc
  next owner format hchild =>
    obtain ⟨_, hr, rfl⟩ := Except.map_eq_ok.1 h
    exact .wikiFile hdir hchild hedit (require_eq_ok.1 hr)
  next a hchild => exact Except.ok.inj h ▸ .attachment hdir hchild hedit
  next removed hchild =>
    obtain ⟨hdelete, rfl⟩ := planDelete_eq_ok h
    exact .below hdir hchild hedit hdelete
  · cases h

theorem removes_of_planRemoveFrom (h : ctx.planRemoveFrom t dir child = .ok plan) :
    ctx.Removes t dir child plan := by
  simp only [planRemoveFrom] at h
  split at h
  next page hdir => exact removes_of_planRemoveFromPage hdir h
  next hchild _ =>
    obtain ⟨scratch, hs, hc, rfl⟩ := planScratchRemove_eq_ok h
    exact .scratch hchild hs hc
  next space page hdir hchild =>
    obtain ⟨hdelete, rfl⟩ := planDelete_eq_ok h
    exact .inSpace hdir hchild hdelete
  next space own group hdir hchild =>
    obtain ⟨pages, hpages, hdelete, rfl⟩ := planDeleteAll_eq_ok h
    exact .group hdir hchild hpages hdelete
  next space view hdir hchild =>
    obtain ⟨pages, hpages, hdelete, rfl⟩ := planDeleteAll_eq_ok h
    exact .space hdir hchild hpages hdelete
  · cases h

theorem planRemove_eq_ok {node : Nat} (h : ctx.planRemove t node child = .ok plan) :
    ∃ dir, t.directory node child = .ok dir ∧ ctx.Removes t dir child plan := by
  simp only [planRemove] at h
  split at h
  · cases h
  next dir hdir => exact ⟨dir, hdir, removes_of_planRemoveFrom h⟩

/-! ## Moving -/

/-- What moving a node to another one comes to. -/
inductive Moves (ctx : Context) (t : Tree) (source destination : Nat) : Plan → Prop
  | page {page other space children} (hsource : t.kind source = .page page)
      (hdestination : t.kind destination = .page other) (hne : page ≠ other)
      (hedit : ctx.holds .edit (.page page) = true) (hspace : other.space = some space)
      (hknown : ctx.repository.hasSpace space = true)
      (howner : ctx.caller.principal.owns page = false)
      (hover : ctx.holds .overwrite (.page other) = true)
      (hchildren : ctx.repository.childrenOf page = .ok children)
      (hall : ∀ c ∈ children.filter (· != page), ctx.holds .edit (.page c) = true) :
      Moves ctx t source destination (.renamePage page other
        (children.filter (· != page) ++ if children.contains page then [other] else []))
  | space {space other pages} (hsource : t.kind source = .space space .pages)
      (hdestination : t.kind destination = .space other .pages) (hne : space ≠ other)
      (hsame : sameDirectory t source destination = true)
      (hnew : ctx.repository.hasSpace other = false)
      (hedit : ctx.holds .edit (.space other) = true)
      (hpages : ctx.repository.pagesIn space = .ok pages)
      (hcarried : ∀ p ∈ pages, ctx.holds .overwrite (.page p) = true ∧
        ctx.caller.principal.owns p = false) :
      Moves ctx t source destination
        (.batch (.renameSpace space other) (pages.map fun p => .write (.rename p (p.movedTo other))))
  | attachment {a other} (hsource : t.kind source = .attachment a)
      (hdestination : t.kind destination = .attachment other) (hne : a ≠ other)
      (hedit : ctx.holds .edit (.page a.page) = true)
      (hother : ctx.holds .edit (.page other.page) = true) :
      Moves ctx t source destination (.write (.move a other))

theorem planMovePage_eq_ok {page other : Page} (h : ctx.planMovePage page other = .ok plan) :
    ∃ space children, ctx.holds .edit (.page page) = true ∧ other.space = some space ∧
      ctx.repository.hasSpace space = true ∧ ctx.caller.principal.owns page = false ∧
      ctx.holds .overwrite (.page other) = true ∧ ctx.repository.childrenOf page = .ok children ∧
      (∀ c ∈ children.filter (· != page), ctx.holds .edit (.page c) = true) ∧
      plan = .renamePage page other
        (children.filter (· != page) ++ if children.contains page then [other] else []) := by
  unfold planMovePage at h
  obtain ⟨_, hr, h⟩ := Except.bind_eq_ok.1 h
  obtain ⟨space, hs, h⟩ := Except.bind_eq_ok.1 h
  have hspace : other.space = some space := by
    cases hq : other.requireSpace with
    | error e =>
      rw [hq] at hs
      cases hs
    | ok found =>
      rw [hq] at hs
      obtain rfl := Except.ok.inj hs
      exact Page.requireSpace_eq_ok.1 hq
  simp only at h
  split at h
  · obtain ⟨_, he, _⟩ := Except.bind_eq_ok.1 h
    cases he
  next hknown =>
    split at h
    · obtain ⟨_, he, _⟩ := Except.bind_eq_ok.1 h
      cases he
    next howner =>
      obtain ⟨_, ho, h⟩ := Except.bind_eq_ok.1 h
      obtain ⟨children, hc, h⟩ := Except.bind_eq_ok.1 h
      obtain ⟨_, ha, h⟩ := Except.bind_eq_ok.1 h
      exact ⟨space, children, require_eq_ok.1 hr, hspace, by simpa using hknown,
        by simpa using howner, require_eq_ok.1 ho, viewed_eq_ok.1 hc, requireAll_eq_ok.1 ha,
        (Except.ok.inj h).symm⟩

theorem planMoveSpace_eq_ok {space other : Space} (h : ctx.planMoveSpace space other = .ok plan) :
    ∃ pages, ctx.repository.hasSpace other = false ∧ ctx.holds .edit (.space other) = true ∧
      ctx.repository.pagesIn space = .ok pages ∧
      (∀ p ∈ pages, ctx.holds .overwrite (.page p) = true ∧ ctx.caller.principal.owns p = false) ∧
      plan = .batch (.renameSpace space other)
        (pages.map fun p => .write (.rename p (p.movedTo other))) := by
  unfold planMoveSpace at h
  simp only at h
  split at h
  · obtain ⟨_, he, _⟩ := Except.bind_eq_ok.1 h
    cases he
  next hnew =>
    obtain ⟨_, hr, h⟩ := Except.bind_eq_ok.1 h
    obtain ⟨pages, hp, h⟩ := Except.bind_eq_ok.1 h
    obtain ⟨_, hc, h⟩ := Except.bind_eq_ok.1 h
    exact ⟨pages, by simpa using hnew, require_eq_ok.1 hr, viewed_eq_ok.1 hp,
      checkAllCarried_eq_ok.1 hc, (Except.ok.inj h).symm⟩

theorem planMoveAttachment_eq_ok {a other : Attachment}
    (h : ctx.planMoveAttachment a other = .ok plan) :
    ctx.holds .edit (.page a.page) = true ∧ ctx.holds .edit (.page other.page) = true ∧
      plan = .write (.move a other) := by
  simp only [planMoveAttachment] at h
  obtain ⟨_, hr, h⟩ := Except.bind_eq_ok.1 h
  obtain ⟨_, ho, h⟩ := Except.bind_eq_ok.1 h
  exact ⟨require_eq_ok.1 hr, require_eq_ok.1 ho, (Except.ok.inj h).symm⟩

theorem moves_of_planMove (h : ctx.planMove t source destination = .ok plan) :
    ctx.Moves t source destination plan := by
  simp only [planMove] at h
  split at h
  · cases h
  · split at h
    · cases h
    next hne =>
      split at h
      next page other hsource hdestination =>
        rw [hsource, hdestination, NodeKind.page.injEq] at hne
        obtain ⟨space, children, hedit, hspace, hknown, howner, hover, hchildren, hall, rfl⟩ :=
          planMovePage_eq_ok h
        exact .page hsource hdestination hne hedit hspace hknown howner hover hchildren hall
      next space other hsource hdestination =>
        split at h
        next hsame =>
          have hspaces : space ≠ other := fun he => hne (by rw [hsource, hdestination, he])
          obtain ⟨pages, hnew, hedit, hpages, hcarried, rfl⟩ := planMoveSpace_eq_ok h
          exact .space hsource hdestination hspaces hsame hnew hedit hpages hcarried
        · cases h
      next a other hsource hdestination =>
        rw [hsource, hdestination, NodeKind.attachment.injEq] at hne
        obtain ⟨hedit, hother, rfl⟩ := planMoveAttachment_eq_ok h
        exact .attachment hsource hdestination hne hedit hother
      · cases h

end Context

end WikiMount
