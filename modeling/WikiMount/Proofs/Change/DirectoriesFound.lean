import WikiMount.Proofs.Change.NewDirectories
import WikiMount.Proofs.Node.EnclosingDirectory
import WikiMount.Proofs.Node.Visibility
import WikiMount.Proofs.Text.LetterGroups

/-!
# New directories are found again

A path at which a directory has been made leads a read to the same node, since the page that was added
takes nothing away from the way. This holds if the way leaves the stored tree nowhere before its end, and
there are two kinds of names under which no directory is found. What has the name of a scratch file is an
empty file. And while a directory is made its name stands for a page, also where a read takes it for the
name of a letter group, so in a space the page is made and the group is looked at.
-/

namespace WikiMount

/-- The second repository holds more pages and the same files. -/
structure Repository.Enlarged (r r' : Repository) : Prop where
  hasPage : ∀ page, r.hasPage page = true → r'.hasPage page = true
  files : ∀ page, r'.files page = r.files page

/-- What is known about a letter group of a space. -/
structure Stat.IsOfGroup (found : Stat) (r : Repository) (space : Space) (group : LetterGroup) :
    Prop where
  kind : found.entry.kind = .letterGroup
  isCollection : found.entry.isCollection = true
  /-- The group is there if one of its pages is stored. -/
  isPresent : found.isPresent = true ↔
    ∃ page, r.hasPage page = true ∧ page.isIn space = true ∧ group.holds page.name = true

theorem Store.PageMade.hasPage {s s' : Store} {d : Document} {page : Page} (h : s.PageMade d s')
    (hpage : s.hasPage page = true) : s'.hasPage page = true := by
  have hother : page ≠ d.reference := by
    rintro rfl
    exact Bool.false_ne_true (h.fresh.symm.trans hpage)
  rw [hasPage_congr (h.others page hother), hpage]

theorem Store.PageMade.hasPage_reference {s s' : Store} {d : Document} (h : s.PageMade d s') :
    s'.hasPage d.reference = true := by
  rw [hasPage_eq, h.document]
  rfl

namespace Workspace.Made

variable {w w' : Workspace} {config : Config} {path : String} {parent? : Option Page} {kind : NodeKind}

theorem broken (h : w.Made config path parent? w' kind) :
    w'.repository.broken = w.repository.broken := by
  cases h with
  | scratch hrepository => rw [hrepository]
  | page _ _ hrepository => rw [hrepository]

theorem enlarged (h : w.Made config path parent? w' kind) :
    w.repository.Enlarged w'.repository := by
  have hbroken := h.broken
  cases h with
  | scratch hrepository =>
    rw [hrepository]
    exact ⟨fun _ hpage => hpage, fun _ => rfl⟩
  | page _ _ _ h =>
    refine ⟨fun _ hpage => h.hasPage hpage, fun page => ?_⟩
    simp only [Repository.files, Repository.asked, hbroken, Store.filesOf, h.attachments]

/-- A page that is made was not stored before and is afterwards. -/
theorem fresh {page : Page} (h : w.Made config path parent? w' (.page page)) :
    w.repository.hasPage page = false ∧ w'.repository.hasPage page = true := by
  cases h with
  | page hpage _ _ h =>
    obtain rfl := Option.some.inj hpage
    exact ⟨h.fresh, h.hasPage_reference⟩

/-- What has been made is a directory unless it is a scratch file. -/
theorem isCollection_iff (h : w.Made config path parent? w' kind) :
    kind.isCollection = true ↔ ¬∃ name, kind = .scratch name := by
  cases h with
  | scratch => simp [NodeKind.isCollection, NodeKind.capabilities]
  | page hpage =>
    cases kind with
    | page page => simp [NodeKind.isCollection, NodeKind.capabilities]
    | space space view => cases view <;> simp [NodeKind.isCollection, NodeKind.capabilities]
    | _ => cases hpage

end Workspace.Made

namespace Context

variable {ctx ctx' : Context} {t : Tree} {id parent : Nat} {path token : String} {last : Bool}
  {above kind : NodeKind} {config : Config} {parent? : Option Page}

/-! ## The way to the directory -/

/-- While a directory is made a token names what it names where there are fewer pages. -/
theorem Decodes.enlarged (hcreate : ctx.intent = .createCollection)
    (hcreate' : ctx'.intent = .createCollection)
    (hlarger : ctx.repository.Enlarged ctx'.repository) (h : ctx.Decodes token last above kind) :
    ctx'.Decodes token last above kind := by
  have hsame : ctx'.intent = ctx.intent := hcreate'.trans hcreate.symm
  have hnew : ctx'.mayBeNew last = ctx.mayBeNew last := by simp only [mayBeNew, hsame]
  have hgroups : ctx'.namesGroup token last = ctx.namesGroup token last := by
    simp only [namesGroup, hnew]
  have hnamed : ∀ files, ctx'.namesFile files token last = ctx.namesFile files token last :=
    fun files => by simp only [namesFile, moving?, hsame]
  cases h with
  | scratch hparent htoken => exact .scratch hparent htoken
  | view htoken h => exact .view htoken h
  | topLevel htoken hnot => exact .topLevel htoken (hsame ▸ hnot)
  | listed htoken h => exact .listed htoken h
  | orphan htoken h hspace hpage hnot =>
    exact .orphan htoken h hspace (hlarger.hasPage _ hpage) (hnew.trans hnot)
  | group htoken hgroup h => exact .group htoken (hgroups.trans hgroup) h
  | own htoken hgroup _ => exact .own htoken (hgroups.trans hgroup) (namesPage_of_create hcreate' _ _)
  | nested _ _ hnot => cases hnot.symm.trans (namesPage_of_create hcreate _ _)
  | full _ _ hnot => cases hnot.symm.trans (namesPage_of_create hcreate _ _)
  | fileGroup htoken hgroup h => exact .fileGroup htoken (hgroups.trans hgroup) h
  | holder htoken hgroup hpage =>
    exact .holder htoken (hgroups.trans hgroup) (hlarger.hasPage _ hpage)
  | grouped htoken hgroup hnot => exact .grouped htoken hgroup (hsame ▸ hnot)
  | groupedHolder htoken hpage hnot =>
    exact .groupedHolder htoken (hlarger.hasPage _ hpage) (hnew.trans hnot)
  | wikiFile htoken h => exact .wikiFile htoken h
  | attachment htoken hformat hfiles h =>
    exact .attachment htoken hformat ((hlarger.files _).trans hfiles) ((hnamed _).trans h)
  | child htoken hformat hfiles hfile h =>
    exact .child htoken hformat ((hlarger.files _).trans hfiles) ((hnamed _).trans hfile) h

/-- The way to what has been made is found by a read, up to the last token, if it enters stored pages
only. -/
theorem enter_made (hcreate : ctx.intent = .createCollection)
    (hcreate' : ctx'.intent = .createCollection) (hl : ctx.lookup path = .ok (id, t))
    (hp : (t.node id).parent = some parent)
    (hlarger : ctx.repository.Enlarged ctx'.repository)
    (hstored : ctx'.repository.EntersStored (t.describe parent)) :
    ∃ tokens token mid, Path.tokens path = .ok (tokens ++ [token]) ∧
      (ctx'.withIntent .read).enter .new 0 tokens = .ok (parent, mid) ∧
      mid.kind parent = t.kind parent ∧ mid.insert parent (t.kind id) token = .ok (id, t) := by
  obtain ⟨tokens, token, mid, htokens, he, hs⟩ := lookup_below hl hp
  obtain ⟨hmid, _, hlt⟩ := enter_resolved .new (by decide) he
  obtain ⟨kind, _, hinsert⟩ := step_eq_ok.1 hs
  have hkept := Tree.Extends.insert hinsert
  have hchain : t.describe parent = mid.describe parent :=
    hkept.describe hmid.ordered (hmid.ordered.insert hlt hinsert) hlt
  have henter : ctx'.enter .new 0 tokens = .ok (parent, mid) :=
    enter_transfer (fun _ => True) (fun _ _ _ => trivial)
      (fun _ hk => hk.enlarged hcreate hcreate' hlarger) he trivial
  refine ⟨tokens, token, mid, htokens, enter_read henter fun _ => hchain ▸ hstored, ?_, ?_⟩
  · exact congrArg Node.kind (hkept.node parent hlt).symm
  · rwa [Tree.kind_insert_self hinsert]

/-- The last token names to a read what has been made, if it does not name a letter group. -/
theorem Decodes.made (hcreate : ctx.intent = .createCollection)
    (hmade : ctx.toWorkspace.Made config path parent? ctx'.toWorkspace kind)
    (hgroup : ∀ space, above = .space space .pages → ReservedName.isGroup token = false)
    (h : ctx.Decodes token true above kind) : (ctx'.withIntent .read).Decodes token true above kind := by
  have hnew : ctx.mayBeNew true = true := by simp [mayBeNew, hcreate, Intent.isCreateOrMove]
  cases h with
  | scratch hparent htoken => exact .scratch hparent htoken
  | view htoken h => exact .view htoken h
  | topLevel htoken _ => exact .topLevel htoken rfl
  | listed htoken h => exact .listed htoken h
  | orphan _ _ _ _ hnot => cases hnot.symm.trans hnew
  | group _ h => simp [namesGroup, hnew] at h
  | @own space htoken _ _ =>
    refine .own htoken ?_ ?_
    · simp [namesGroup, hgroup space rfl]
    · rw [namesPage, Bool.or_eq_true]
      exact .inr hmade.fresh.2
  | nested _ _ hnot => cases hnot.symm.trans (namesPage_of_create hcreate _ _)
  | full _ _ hnot => cases hnot.symm.trans (namesPage_of_create hcreate _ _)
  | fileGroup _ h => simp [namesGroup, hnew] at h
  | holder _ _ hstored => cases hmade.fresh.1.symm.trans hstored
  | grouped htoken hholds _ => exact .grouped htoken hholds rfl
  | groupedHolder _ _ hnot => cases hnot.symm.trans hnew
  | wikiFile => cases hmade with | page hpage => cases hpage
  | attachment => cases hmade with | page hpage => cases hpage
  | @child page files _ htoken hformat hfiles hfile h =>
    refine .child htoken hformat ((hmade.enlarged.files page).trans hfiles) ?_ h
    simpa [namesFile, moving?, withIntent, hcreate, Intent.isCreateFile, Intent.moveSource?] using hfile

theorem lookup_made (hcreate : ctx.intent = .createCollection)
    (hcreate' : ctx'.intent = .createCollection) (hl : ctx.lookup path = .ok (id, t))
    (hp : (t.node id).parent = some parent)
    (hmade : ctx.toWorkspace.Made config (t.path id) parent? ctx'.toWorkspace (t.kind id))
    (hstored : ctx'.repository.EntersStored (t.describe parent))
    (hgroup : ∀ space, t.kind parent = .space space .pages →
      ReservedName.isGroup (t.node id).segment = false) :
    (ctx'.withIntent .read).lookup path = .ok (id, t) := by
  obtain ⟨tokens, token, mid, htokens, he, hkind, hinsert⟩ :=
    enter_made hcreate hcreate' hl hp hmade.enlarged hstored
  have hdecodes := (lookup_decodes hl hp).made hcreate hmade hgroup
  rw [Tree.node_insert_self hinsert, ← hkind] at hdecodes
  refine lookup_eq_ok_iff.2 (resolvePath_eq_ok_iff.2 ⟨_, htokens, resolve_concat_eq_ok.2 ?_⟩)
  exact ⟨parent, mid, he, step_eq_ok.2 ⟨_, hdecodes, hinsert⟩⟩

/-- The name of a letter group, in the directory of a space, leads a read to the group, also where it has
led to a new page. -/
theorem lookup_made_group {space : Space} (hcreate : ctx.intent = .createCollection)
    (hcreate' : ctx'.intent = .createCollection) (hl : ctx.lookup path = .ok (id, t))
    (hp : (t.node id).parent = some parent)
    (hlarger : ctx.repository.Enlarged ctx'.repository)
    (hstored : ctx'.repository.EntersStored (t.describe parent))
    (hspace : t.kind parent = .space space .pages)
    (hgroup : ReservedName.isGroup (t.node id).segment = true) :
    match LetterGroup.ofToken (t.node id).segment with
    | .error e => (ctx'.withIntent .read).lookup path = .error e
    | .ok group => ∃ id' t', (ctx'.withIntent .read).lookup path = .ok (id', t') ∧
      t'.kind id' = .pageGroup space group := by
  obtain ⟨tokens, token, mid, htokens, he, hkind, hinsert⟩ :=
    enter_made hcreate hcreate' hl hp hlarger hstored
  rw [Tree.node_insert_self hinsert] at hgroup ⊢
  rw [hspace] at hkind
  have hplain : ReservedName.isScratch token = false := LetterGroup.isScratch_of_isGroup hgroup
  have hnames : (ctx'.withIntent .read).namesGroup token true = true := by
    simpa [namesGroup, mayBeNew, withIntent, Intent.isCreateOrMove] using hgroup
  dsimp only
  split
  next e hread =>
    have hstep : (ctx'.withIntent .read).step mid parent token true = .error e := by
      rw [namesGroup] at hnames
      simp [step, hkind, decode, hplain, NodeKind.capabilities, decodeInSpace, hnames, hread,
        Except.map]
    have herror := resolve_concat_error he hstep
    simp only [lookup, resolvePath, htokens]
    split
    next hok =>
      rw [hok] at herror
      cases herror
    next hfailed =>
      rw [hfailed] at herror
      exact congrArg Except.error (Except.error.inj herror)
  next group hread =>
    have hdecodes : (ctx'.withIntent .read).Decodes token true (mid.kind parent)
        (.pageGroup space group) := hkind ▸ .group hplain hnames hread
    have hvalid : Tree.validate (mid.kind parent) (.pageGroup space group) = .ok () := by
      simp [Tree.validate, hkind]
    cases hadded : mid.insert parent (.pageGroup space group) token with
    | error e => simp [Tree.insert, hvalid] at hadded
    | ok added =>
      obtain ⟨id', t'⟩ := added
      refine ⟨id', t', ?_, Tree.kind_insert_self hadded⟩
      refine lookup_eq_ok_iff.2 (resolvePath_eq_ok_iff.2 ⟨_, htokens, resolve_concat_eq_ok.2 ?_⟩)
      exact ⟨parent, mid, he, step_eq_ok.2 ⟨_, hdecodes, hadded⟩⟩

/-! ## Looking at the directory -/

/-- What looking at a node answers if it may be viewed. -/
theorem stat_of_lookup (hl : ctx.lookup path = .ok (id, t)) (hbroken : ctx.repository.broken = [])
    (hshows : ctx.caller.policy.Shows (t.kind id).reference?)
    (hsize : ∃ size, ctx.fileSize t id = .ok size) :
    ∃ found, ctx.stat path = .ok found ∧ found.entry = t.entry id ∧
      found.isPresent = ctx.isPresent t id := by
  have hreadable := requireReadable_eq_ok.2 hshows
  cases hpresent : ctx.isPresent t id with
  | false => exact ⟨_, stat_eq_ok.2 ⟨id, t, hl, hreadable, .inl ⟨hpresent, rfl⟩⟩, rfl, rfl⟩
  | true =>
    obtain ⟨times, htimes⟩ := times_of_working (lookup_resolved hl).1 hbroken id
    obtain ⟨size, hsize⟩ := hsize
    exact ⟨_, stat_eq_ok.2 ⟨id, t, hl, hreadable, .inr ⟨hpresent, times, size, htimes, hsize, rfl⟩⟩,
      rfl, rfl⟩

theorem isPresent_made
    (hmade : ctx.toWorkspace.Made config (t.path id) parent? ctx'.toWorkspace (t.kind id)) :
    ctx'.isPresent t id = true := by
  generalize hk : t.kind id = kind at hmade
  cases hmade with
  | scratch _ _ hfiles' _ h =>
    have hfile := h (t.path id)
    rw [if_pos rfl] at hfile
    simp only [isPresent, hk, hfiles', Option.any_some]
    exact Option.isSome_iff_exists.2 ⟨_, hfile⟩
  | page hpage _ _ h =>
    cases kind with
    | page page =>
      obtain rfl := Option.some.inj hpage
      simp only [isPresent, hk]
      exact h.hasPage_reference
    | space space view =>
      obtain rfl := Option.some.inj hpage
      simp only [isPresent, hk]
      exact (h.spaces space).2 (.inl ⟨space, rfl, space.self_mem_lineage⟩)
    | _ => cases hpage

theorem fileSize_made
    (hmade : ctx.toWorkspace.Made config (t.path id) parent? ctx'.toWorkspace (t.kind id)) :
    ∃ size, ctx'.fileSize t id = .ok size := by
  have hcollection := hmade.isCollection_iff
  unfold fileSize
  generalize hk : t.kind id = kind at hmade hcollection
  split
  · exact ⟨none, rfl⟩
  next hfile =>
    cases hmade with
    | scratch _ _ hfiles' _ h =>
      have hread := h (t.path id)
      rw [if_pos rfl] at hread
      simp only [content, hk, scratchContent, requireScratch, hfiles', hread]
      exact ⟨_, rfl⟩
    | page hpage =>
      rw [hcollection, not_not] at hfile
      obtain ⟨name, rfl⟩ := hfile
      cases hpage

/-- A letter group is there if one of its pages is stored. -/
theorem isPresent_group {space : Space} {group : LetterGroup} (hbroken : ctx.repository.broken = [])
    (hk : t.kind id = .pageGroup space group) :
    ctx.isPresent t id = true ↔ ∃ page, ctx.repository.hasPage page = true ∧
      page.isIn space = true ∧ group.holds page.name = true := by
  simp only [isPresent, hk, finds, Repository.pagesBeginning, Repository.asked_of_working hbroken,
    List.any_eq_true, and_true, LetterGroup.mem_pagesBeginning_key]
  exact Iff.rfl

theorem stat_group {space : Space} {group : LetterGroup} (hl : ctx.lookup path = .ok (id, t))
    (hbroken : ctx.repository.broken = []) (hk : t.kind id = .pageGroup space group) :
    ∃ found, ctx.stat path = .ok found ∧ found.IsOfGroup ctx.repository space group := by
  have hshows : ctx.caller.policy.Shows (t.kind id).reference? := by
    rw [hk]
    exact Policy.shows_space space
  have hsize : ∃ size, ctx.fileSize t id = .ok size := by
    refine ⟨none, ?_⟩
    simp only [fileSize, hk]
    rfl
  obtain ⟨found, hstat, hentry, hpresent⟩ := stat_of_lookup hl hbroken hshows hsize
  refine ⟨found, hstat, ?_, ?_, ?_⟩
  · rw [hentry, Tree.entry, hk]
    rfl
  · rw [hentry, Tree.entry, hk]
    rfl
  · rw [hpresent]
    exact isPresent_group hbroken hk

/-- In the directory of a space a new directory is the page of its name. -/
theorem Decodes.page_of_create {space : Space} (hcreate : ctx.intent = .createCollection)
    (hplain : ReservedName.isScratch token = false)
    (h : ctx.Decodes token true (.space space .pages) kind) : kind = .page (.inSpace token space) := by
  cases h with
  | scratch _ htoken => cases hplain.symm.trans htoken
  | group _ h => simp [namesGroup, mayBeNew, hcreate, Intent.isCreateOrMove] at h
  | own => rfl
  | nested _ _ hnot => cases hnot.symm.trans (namesPage_of_create hcreate _ _)
  | full _ _ hnot => cases hnot.symm.trans (namesPage_of_create hcreate _ _)

theorem stat_made (hcreate : ctx.intent = .createCollection)
    (hcreate' : ctx'.intent = .createCollection) (hbroken : ctx.repository.broken = [])
    (hl : ctx.lookup path = .ok (id, t)) (hp : (t.node id).parent = some parent)
    (hmade : ctx.toWorkspace.Made config (t.path id) parent? ctx'.toWorkspace (t.kind id))
    (hstored : ctx'.repository.EntersStored (t.describe parent))
    (hgroup : ∀ space, t.kind parent = .space space .pages →
      ReservedName.isGroup (t.node id).segment = false)
    (hshows : ctx'.caller.policy.Shows (t.kind id).reference?) :
    ∃ found, (ctx'.withIntent .read).stat path = .ok found ∧ found.entry = t.entry id ∧
      found.isPresent = true ∧
      (found.entry.isCollection = true ↔ ReservedName.isScratch (t.node id).segment = false) := by
  have hlookup := lookup_made hcreate hcreate' hl hp hmade hstored hgroup
  obtain ⟨found, hstat, hentry, hpresent⟩ :=
    stat_of_lookup hlookup (hmade.broken.trans hbroken) hshows (fileSize_made hmade)
  have hscratch := (lookup_decodes hl hp).isScratch_iff
  refine ⟨found, hstat, hentry, hpresent.trans (isPresent_made hmade), ?_⟩
  rw [hentry, ← Bool.not_eq_true, hscratch]
  exact hmade.isCollection_iff

theorem stat_made_group {space : Space} (hcreate : ctx.intent = .createCollection)
    (hcreate' : ctx'.intent = .createCollection) (hbroken : ctx.repository.broken = [])
    (hl : ctx.lookup path = .ok (id, t)) (hp : (t.node id).parent = some parent)
    (hmade : ctx.toWorkspace.Made config (t.path id) parent? ctx'.toWorkspace (t.kind id))
    (hstored : ctx'.repository.EntersStored (t.describe parent))
    (hspace : t.kind parent = .space space .pages)
    (hgroup : ReservedName.isGroup (t.node id).segment = true) :
    ctx'.repository.hasPage (.inSpace (t.node id).segment space) = true ∧
      match LetterGroup.ofToken (t.node id).segment with
      | .error e => (ctx'.withIntent .read).stat path = .error e
      | .ok group => ∃ found, (ctx'.withIntent .read).stat path = .ok found ∧
        found.IsOfGroup ctx'.repository space group := by
  have hlookup := lookup_made_group hcreate hcreate' hl hp hmade.enlarged hstored hspace hgroup
  have hdecodes := lookup_decodes hl hp
  rw [hspace] at hdecodes
  have hpage := hdecodes.page_of_create hcreate (LetterGroup.isScratch_of_isGroup hgroup)
  rw [hpage] at hmade
  refine ⟨hmade.fresh.2, ?_⟩
  split
  next e hread =>
    rw [hread] at hlookup
    simp only [stat, hlookup, bind, Except.bind]
  next group hread =>
    rw [hread] at hlookup
    obtain ⟨id', t', hfound, hk⟩ := hlookup
    exact stat_group hfound (hmade.broken.trans hbroken) hk

end Context

namespace Service

variable {s : Service} {caller : Caller} {path : String}

/-- A directory that has been made is looked at under the same path, provided that the way to it enters
stored pages only: it is there, and it is a collection unless it has the name of a scratch file. In the
directory of a space a name of a letter group stands for a page while a directory is made, so the page is
stored, and for the group when it is looked at. -/
theorem handle_made_stat (hs : s.sessions.Sound) (hr : s.repository.store.Reachable)
    (hbroken : s.repository.broken = [])
    (hok : (s.handle caller (.makeCollection path)).1 = .ok .done) :
    let s' := (s.handle caller (.makeCollection path)).2
    let answer := (s'.handle caller (.stat path)).1
    ∃ id t parent, (s.context caller .createCollection).lookup path = .ok (id, t) ∧
      (t.node id).parent = some parent ∧
      (s'.repository.EntersStored (t.describe parent) →
        ((∀ space, t.kind parent = .space space .pages → ReservedName.isGroup (t.node id).segment = false) →
          caller.policy.Shows (t.kind id).reference? →
            ∃ found, answer = .ok (.stat found) ∧ found.entry = t.entry id ∧
              found.isPresent = true ∧
              (found.entry.isCollection = true ↔ ReservedName.isScratch (t.node id).segment = false)) ∧
        ∀ space, t.kind parent = .space space .pages → ReservedName.isGroup (t.node id).segment = true →
          s'.repository.hasPage (.inSpace (t.node id).segment space) = true ∧
          match LetterGroup.ofToken (t.node id).segment with
          | .error e => answer = .error e
          | .ok group =>
            ∃ found, answer = .ok (.stat found) ∧ found.IsOfGroup s'.repository space group) := by
  intro s' answer
  obtain ⟨id, t, parent, hl, hp, hmade⟩ := context_made hs hr.coherent hok .createCollection
  have hanswer : answer =
      (((s'.context caller .createCollection).withIntent .read).stat path).map .stat := rfl
  refine ⟨id, t, parent, hl, hp, fun hstored => ⟨fun hgroup hshows => ?_, fun space hspace hgroup => ?_⟩⟩
  · obtain ⟨found, hstat, hfound⟩ :=
      Context.stat_made rfl rfl hbroken hl hp hmade hstored hgroup hshows
    exact ⟨found, by rw [hanswer, hstat]; rfl, hfound⟩
  · obtain ⟨hpage, hstat⟩ :=
      Context.stat_made_group rfl rfl hbroken hl hp hmade hstored hspace hgroup
    refine ⟨hpage, ?_⟩
    rw [hanswer]
    split
    next e hread =>
      rw [hread] at hstat
      rw [hstat]
      rfl
    next group hread =>
      rw [hread] at hstat
      obtain ⟨found, hstat, hfound⟩ := hstat
      exact ⟨found, by rw [hstat]; rfl, hfound⟩

/-- A page is made below another one and is found there. -/
theorem handle_made_stat_below_page :
    let a := Page.inSpace "A" (.topLevel "Main")
    let s := Service.new (.ofStore (.ofPages [a])) .standard
    let caller : Caller := ⟨.anonymous, .allowAll⟩
    let s' := (s.handle caller (.makeCollection "/spaces/Main/A/B")).2
    (s.handle caller (.makeCollection "/spaces/Main/A/B")).1 = .ok .done ∧
      ∃ found, (s'.handle caller (.stat "/spaces/Main/A/B")).1 = .ok (.stat found) ∧
        found.isPresent = true ∧ found.entry.isCollection = true := by
  intro a s caller s'
  have hok : (s.handle caller (.makeCollection "/spaces/Main/A/B")).1 = .ok .done := by
    dsimp only [s, caller, a]
    rfl
  let b := Page.inSpace "B" (.topLevel "Main")
  let t : Tree := ⟨#[.root, ⟨.baseView .pages, "spaces", some 0, none⟩,
    ⟨.space (.topLevel "Main") .pages, "Main", some 1, none⟩, ⟨.page a, "A", some 2, none⟩,
    ⟨.page b, "B", some 3, none⟩]⟩
  have hl : (s.context caller .createCollection).lookup "/spaces/Main/A/B" = .ok (4, t) := by
    dsimp only [s, caller, t, a, b]
    rfl
  have hs : s.sessions.Sound := .ofConfig _
  have hr : s.repository.store.Reachable := Store.reachable_ofPages [a]
  obtain ⟨id, t', parent, hl', hp, hfound⟩ := handle_made_stat hs hr rfl hok
  obtain ⟨rfl, rfl⟩ := Prod.mk.inj (Except.ok.inj (hl.symm.trans hl'))
  obtain rfl : 3 = parent := Option.some.inj hp
  have hchain : t.describe 3 = [(.root, ""), (.baseView .pages, "/spaces"),
      (.space (.topLevel "Main") .pages, "/Main"), (.page a, "/A")] := rfl
  have hpage : s'.repository.hasPage a = true := by decide
  have hstored : s'.repository.EntersStored (t.describe 3) := by
    simp [hchain, Repository.EntersStored, hpage]
  obtain ⟨found, hstat, _, hpresent, hcollection⟩ :=
    (hfound hstored).1 (fun space hspace => by cases hspace) (Policy.shows_of_grants rfl)
  exact ⟨hok, found, hstat, hpresent, hcollection.2 (by decide)⟩

/-- Under the name of a scratch file no collection is made, and what is made under the name of a letter
group is not there when that name is looked at. -/
theorem no_directory_under_reserved_names :
    let s := Service.new (.ofStore (.ofPages [.inSpace "B" (.topLevel "Main")])) .standard
    let caller : Caller := ⟨.anonymous, .allowAll⟩
    let answer := fun path =>
      ((s.handle caller (.makeCollection path)).2.handle caller (.stat path)).1
    s.Serving ∧ s.repository.store.Reachable ∧ s.repository.broken = [] ∧ s.config.homePage ≠ "" ∧
      (∀ right target, caller.policy.grants right target = true) ∧
      (s.handle caller (.makeCollection "/spaces/Main/.x")).1 = .ok .done ∧
      (∀ found, answer "/spaces/Main/.x" = .ok (.stat found) → found.entry.isCollection = false) ∧
      (s.handle caller (.makeCollection "/spaces/Main/_a_")).1 = .ok .done ∧
      ∀ found, answer "/spaces/Main/_a_" = .ok (.stat found) → found.isPresent = false := by
  intro s caller answer
  have hscratch : answer "/spaces/Main/.x" = .ok (.stat
      ⟨⟨".x", "/spaces/Main/.x", .tempFile, false, none⟩, true, some 0, none, none⟩) := by
    dsimp only [answer, s, caller]
    rfl
  have hgroup : answer "/spaces/Main/_a_" = .ok (.stat
      ⟨⟨"_A_", "/spaces/Main/_a_", .letterGroup, true, some (.space (.topLevel "Main"))⟩,
        false, none, none, none⟩) := by
    dsimp only [answer, s, caller]
    rfl
  refine ⟨.new _ _, Store.reachable_ofPages _, rfl, by decide, fun _ _ => rfl, ?_, ?_, ?_, ?_⟩
  · dsimp only [s, caller]
    rfl
  · rintro found hfound
    obtain rfl := Response.stat.inj (Except.ok.inj (hscratch.symm.trans hfound))
    rfl
  · dsimp only [s, caller]
    rfl
  · rintro found hfound
    obtain rfl := Response.stat.inj (Except.ok.inj (hgroup.symm.trans hfound))
    rfl

end Service

end WikiMount
