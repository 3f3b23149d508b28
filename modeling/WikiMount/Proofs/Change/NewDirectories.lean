import WikiMount.Proofs.Change.Runs
import WikiMount.Proofs.Session.ScratchFiles

/-!
# New directories

A directory is made by saving a page: the page itself, or the home page of a space. Saving replaces a page
that is stored, but a directory is not made where there is one: the page is looked up before, and the home
page is not stored because its space is not known. So a request for a directory that succeeds adds one page
to the pages that were there, or one empty file to the scratch files of the caller, and changes no other.
-/

namespace WikiMount

namespace Store

/-- The stores differ in one document, which is new in the second one, and in what comes with it. -/
structure PageMade (s : Store) (d : Document) (s' : Store) : Prop where
  fresh : s.hasPage d.reference = false
  document : s'.documents.get? d.reference = some d
  others : ∀ page, page ≠ d.reference → s'.documents.get? page = s.documents.get? page
  attachments : s'.attachments = s.attachments
  spaces : ∀ space, s'.hasSpace space = true ↔
    (∃ own, d.reference.space = some own ∧ space ∈ own.lineage) ∨ s.hasSpace space = true
  clock : s'.clock = s.clock + 1

variable {s s' : Store} {d : Document} {page : Page}

theorem pageMade_save (hfresh : s.hasPage d.reference = false) (h : s.save d = .ok s') :
    s.PageMade (d.savedAt (s.clock + 1)) s' := by
  have hdocument := document?_save h
  have hspaces : ∀ space, s'.hasSpace space = true ↔
      (∃ own, d.reference.space = some own ∧ space ∈ own.lineage) ∨ s.hasSpace space = true :=
    fun _ => hasSpace_save h
  obtain ⟨own, _, rfl⟩ := save_eq_ok h
  refine ⟨hfresh, ?_, fun page hpage => ?_, rfl, hspaces, rfl⟩
  · exact (hdocument d.reference).trans (if_pos rfl)
  · exact (hdocument page).trans (if_neg hpage)

theorem document_of_unstored (hpage : s.hasPage page = false) (h : s.document page = .ok d) :
    d = .blank page := by
  rw [hasPage_eq, Option.isSome_eq_false_iff, Option.isNone_iff_eq_none] at hpage
  unfold document at h
  split at h
  · rw [hpage] at h
    exact (Except.ok.inj h).symm
  · cases h

end Store

/-- The document of a page that is made as a directory. -/
def Config.newDocument (c : Config) (page : Page) (parent : Option Page) (now : Nat) : Document where
  reference := page
  content := c.placeholder
  parent := parent
  createdAt := now
  updatedAt := now
  locale := c.defaultLocale
  isNew := false

/-- The page that a directory is made by. -/
def NodeKind.pageMade? (config : Config) : NodeKind → Option Page
  | .page p => some p
  | .space s _ => some (.inSpace config.homePage s)
  | _ => none

/-- What making a directory changes of a workspace, by the kind of the node that is made and the page of the
node above it. Under the name of a scratch file an empty file is made. -/
inductive Workspace.Made (config : Config) (w : Workspace) (path : String) (parent? : Option Page)
    (w' : Workspace) : NodeKind → Prop
  | scratch {name : String} {files files' : Scratch} (hrepository : w'.repository = w.repository)
      (hfiles : w.scratch = some files) (hfiles' : w'.scratch = some files')
      (hfresh : files.contains path = false)
      (h : ∀ file, files'.read? file = if file = path then some .empty else files.read? file) :
      Made config w path parent? w' (.scratch name)
  | page {kind : NodeKind} {page : Page} (hpage : kind.pageMade? config = some page)
      (hscratch : w'.scratch = w.scratch)
      (hrepository : w'.repository = { w.repository with
        store := w'.repository.store, writes := w.repository.writes + 1 })
      (h : w.repository.store.PageMade
        (config.newDocument page parent? (w.repository.store.clock + 1)) w'.repository.store) :
      Made config w path parent? w' kind

/-! ## The node above -/

namespace Tree

variable {t : Tree} {parent dir id : Nat} {space : Space} {group : LetterGroup}

/-- A letter group leaves new pages to the space whose pages it collects. -/
theorem Resolved.space_of_directory (ht : t.Resolved) (hk : t.kind parent = .pageGroup space group)
    (hpage : (t.kind id).isPage = true) (h : t.directory parent id = .ok dir) :
    t.kind dir = .space space .pages := by
  obtain ⟨above, habove, hspace⟩ := ht.parent_of_pageGroup hk
  obtain ⟨rest, hrest⟩ := exists_ancestors_eq_cons ht.ordered above
  have hclosest : t.semanticParent? parent = some above := by
    simp [semanticParent?, ht.ordered.ancestors_of_parent habove, hrest, hspace,
      NodeKind.isLetterGroup]
  simp only [directory, hclosest] at h
  split at h
  next hchild =>
    rw [hchild] at hpage
    cases hpage
  · rw [hk] at h
    obtain rfl := Except.ok.inj h
    exact hspace

/-- A directory that is no page answers for the node right above, which is no page either. -/
theorem page?_of_directory (hdir : (t.kind dir).page? = none)
    (h : t.directory parent id = .ok dir) : (t.kind parent).page? = none := by
  cases hgroup : (t.kind parent).isLetterGroup with
  | false => exact directory_of_not_group hgroup h ▸ hdir
  | true => cases hk : t.kind parent <;> simp_all [NodeKind.isLetterGroup, NodeKind.page?]

end Tree

namespace Context

variable {ctx : Context} {t : Tree} {id dir parent : Nat} {path : String} {page : Page} {d : Document}

/-- A page that answers for a new page is the node right above it. -/
theorem page_of_directory (hcreate : ctx.intent = .createCollection)
    (hl : ctx.lookup path = .ok (id, t)) (hp : (t.node id).parent = some parent)
    (hdir : t.directory parent id = .ok dir) (hpage : t.kind dir = .page page)
    (hnew : (t.kind id).isPage = true) : t.kind parent = .page page := by
  cases hgroup : (t.kind parent).isLetterGroup with
  | false => exact Tree.directory_of_not_group hgroup hdir ▸ hpage
  | true =>
    have hdecodes := lookup_decodes hl hp
    cases hk : t.kind parent with
    | pageGroup space group =>
      have hspace := (lookup_resolved hl).1.space_of_directory hk hnew hdir
      cases hpage.symm.trans hspace
    | attachmentGroup space group =>
      -- In a group of the attachments view nothing new is found.
      rw [hk] at hdecodes
      generalize t.kind id = kind at hdecodes hnew
      cases hdecodes with
      | scratch => cases hnew
      | groupedHolder _ _ hnot => simp [mayBeNew, hcreate, Intent.isCreateOrMove] at hnot
    | _ =>
      rw [hk] at hgroup
      cases hgroup

/-! ## Making a directory -/

/-- A request for a directory that succeeds has carried out a plan to add a node that was not there. -/
theorem makeCollection_eq_ok (hok : (ctx.makeCollection path).1 = .ok ()) :
    ∃ id t dir plan, ctx.lookup path = .ok (id, t) ∧ ctx.isPresent t id = false ∧
      t.AnswersFor dir id ∧ ctx.Adds t dir id none plan ∧
      ctx.makeCollection path = plan.execute ctx.toWorkspace := by
  cases hl : ctx.lookup path with
  | error e =>
    simp only [makeCollection, hl] at hok
    cases hok
  | ok found =>
    obtain ⟨id, t⟩ := found
    simp only [makeCollection, hl] at hok ⊢
    split at hok
    · cases hok
    next hnot =>
      obtain ⟨dir, plan, ht, hadds, heq⟩ := add_eq_ok hl rfl hok
      refine ⟨id, t, dir, plan, rfl, by simpa using hnot, ht, hadds, ?_⟩
      rw [if_neg hnot]
      exact heq

/-- The placeholder of a page that is not stored. -/
theorem placeholder_of_unstored (hpage : ctx.repository.hasPage page = false)
    (h : ctx.placeholder page = .ok d) :
    d = { Document.blank page with
      content := ctx.config.placeholder, locale := ctx.config.defaultLocale } := by
  simp only [placeholder] at h
  split at h
  · cases h
  next found hfound =>
    obtain rfl := Store.document_of_unstored hpage (Repository.asked_eq_ok hfound)
    exact (Except.ok.inj h).symm

/-- Saving the placeholder of a page that is not stored makes the page. -/
theorem made_save {parent? : Option Page} {kind : NodeKind}
    (hkind : kind.pageMade? ctx.config = some page) (hpage : ctx.repository.hasPage page = false)
    (hd : ctx.placeholder page = .ok d)
    (hok : ((Plan.write (.save { d with parent := parent? })).execute ctx.toWorkspace).1 = .ok ()) :
    ctx.toWorkspace.Made ctx.config path parent?
      ((Plan.write (.save { d with parent := parent? })).execute ctx.toWorkspace).2 kind := by
  obtain rfl := placeholder_of_unstored hpage hd
  obtain ⟨hwrite, hcounted⟩ := Repository.perform_stored hok
  refine .page hkind rfl hcounted (Store.pageMade_save ?_ (Store.settle_eq_ok hwrite))
  exact hpage

theorem makeCollection_made {files : Scratch} (hs : ctx.repository.store.Coherent)
    (hcreate : ctx.intent = .createCollection) (hfiles : ctx.scratch = some files)
    (hok : (ctx.makeCollection path).1 = .ok ()) :
    ∃ id t parent, ctx.lookup path = .ok (id, t) ∧ (t.node id).parent = some parent ∧
      ctx.toWorkspace.Made ctx.config (t.path id) (t.kind parent).page? (ctx.makeCollection path).2
        (t.kind id) := by
  obtain ⟨id, t, dir, plan, hl, hnot, ht, hadds, heq⟩ := makeCollection_eq_ok hok
  obtain ⟨parent, hp, hdir⟩ := ht.directory
  rw [heq] at hok ⊢
  refine ⟨id, t, parent, hl, hp, ?_⟩
  cases hadds with
  | @scratch name hchild =>
    simp only [isPresent, hchild, hfiles, Option.any_some] at hnot
    rw [hchild]
    refine .scratch rfl hfiles (congrArg (Option.map _) hfiles) hnot fun file => ?_
    exact Scratch.read?_write files (t.path id) file .empty
  | @below page new d hpage hchild _ _ hd =>
    simp only [isPresent, hchild] at hnot
    rw [page_of_directory hcreate hl hp hdir hpage (by rw [hchild]; rfl), hchild]
    exact made_save rfl hnot hd hok
  | text _ _ _ hdata => cases hdata
  | attach _ _ _ hdata => cases hdata
  | @inSpace space page d hspace hchild _ hd =>
    simp only [isPresent, hchild] at hnot
    rw [Tree.page?_of_directory (by rw [hspace]; rfl) hdir, hchild]
    obtain rfl := placeholder_of_unstored hnot hd
    exact made_save rfl hnot hd hok
  | @home space view d hview hchild _ hd =>
    simp only [isPresent, hchild] at hnot
    rw [Tree.page?_of_directory (by rw [hview]; rfl) hdir, hchild]
    have hpage : ctx.repository.hasPage (.inSpace ctx.config.homePage space) = false :=
      hs.hasPage_of_unknown hnot (by simp [Page.isIn, Page.inSpace])
    obtain rfl := placeholder_of_unstored hpage hd
    exact made_save rfl hpage hd hok

end Context

namespace Service

variable {s : Service} {caller : Caller} {path : String}

/-- What the next request of the caller finds once a directory has been made. -/
theorem context_made (hs : s.sessions.Sound) (hr : s.repository.store.Coherent)
    (hok : (s.handle caller (.makeCollection path)).1 = .ok .done) (next : Intent) :
    ∃ id t parent, (s.context caller .createCollection).lookup path = .ok (id, t) ∧
      (t.node id).parent = some parent ∧
      (s.context caller .createCollection).toWorkspace.Made s.config (t.path id)
        (t.kind parent).page?
        ((s.handle caller (.makeCollection path)).2.context caller next).toWorkspace (t.kind id) := by
  have hdone : ((s.context caller .createCollection).makeCollection path).1 = .ok () := respond_done hok
  obtain ⟨id, t, parent, hl, hp, hmade⟩ := Context.makeCollection_made hr rfl rfl hdone
  have hrun : (s.handle caller (.makeCollection path)).2 =
      (s.run caller .createCollection fun ctx => ctx.makeCollection path).2 := rfl
  refine ⟨id, t, parent, hl, hp, ?_⟩
  rw [hrun, run_carried hs next (Context.makeCollection_carries _ path)]
  exact hmade

/-- A request for a directory that succeeds overwrites nothing: it has made one page, or the home page of a
space, that was not stored, and left every document and file as it was, or it has made an empty scratch
file and left the repository as it was. Other callers keep their scratch files. -/
theorem handle_made (hs : s.sessions.Sound) (hr : s.repository.store.Reachable)
    (hok : (s.handle caller (.makeCollection path)).1 = .ok .done) :
    let s' := (s.handle caller (.makeCollection path)).2
    (∃ id t parent, (s.context caller .createCollection).lookup path = .ok (id, t) ∧
      (t.node id).parent = some parent ∧
      (s.context caller .createCollection).toWorkspace.Made s.config (t.path id)
        (t.kind parent).page? (s'.context caller .read).toWorkspace (t.kind id)) ∧
    ∀ n, n ≠ (s.sessions.getOrCreate caller.principal.name).1 →
      s'.sessions.storage n = s.sessions.storage n := by
  intro s'
  have hrun : s' = (s.run caller .createCollection fun ctx => ctx.makeCollection path).2 := rfl
  refine ⟨context_made hs hr.coherent hok .read, fun n hn => ?_⟩
  rw [hrun]
  exact run_storage hn

/-- A page is made below another one; its parent is that page. -/
theorem handle_made_below_page :
    let a := Page.inSpace "A" (.topLevel "Main")
    let b := Page.inSpace "B" (.topLevel "Main")
    let s := Service.new (.ofStore (.ofPages [a])) .standard
    let caller : Caller := ⟨.anonymous, .allowAll⟩
    let s' := (s.handle caller (.makeCollection "/spaces/Main/A/B")).2
    (s.handle caller (.makeCollection "/spaces/Main/A/B")).1 = .ok .done ∧
      s.repository.store.PageMade (Config.standard.newDocument b (some a) 2) s'.repository.store := by
  intro a b s caller s'
  have hok : (s.handle caller (.makeCollection "/spaces/Main/A/B")).1 = .ok .done := by
    dsimp only [s, caller, a]
    rfl
  let t : Tree := ⟨#[.root, ⟨.baseView .pages, "spaces", some 0, none⟩,
    ⟨.space (.topLevel "Main") .pages, "Main", some 1, none⟩, ⟨.page a, "A", some 2, none⟩,
    ⟨.page b, "B", some 3, none⟩]⟩
  have hl : (s.context caller .createCollection).lookup "/spaces/Main/A/B" = .ok (4, t) := by
    dsimp only [s, caller, t, a, b]
    rfl
  have hs : s.sessions.Sound := .ofConfig _
  have hr : s.repository.store.Reachable := Store.reachable_ofPages [a]
  obtain ⟨⟨id, t', parent, hl', hp, hmade⟩, _⟩ := handle_made hs hr hok
  obtain ⟨rfl, rfl⟩ := Prod.mk.inj (Except.ok.inj (hl.symm.trans hl'))
  obtain rfl : 3 = parent := Option.some.inj hp
  refine ⟨hok, ?_⟩
  cases hmade with
  | page hpage _ _ h =>
    obtain rfl := Option.some.inj hpage
    exact h

end Service

end WikiMount
