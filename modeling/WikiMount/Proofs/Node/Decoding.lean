import WikiMount.Node.Resolve

/-!
# The rules of decoding

What a token names below a node is given by one rule for each kind of the node and of what is found.
A rule says when it applies in terms of the repository, the token and what the request intends.
Decoding succeeds exactly where a rule applies, so questions about decoding are questions about rules.
-/

namespace WikiMount

theorem Except.map_eq_ok {ε α β : Type} {f : α → β} {x : Except ε α} {b : β} :
    x.map f = .ok b ↔ ∃ a, x = .ok a ∧ f a = b := by
  cases x <;> simp [Except.map]

/-- Two repositories answer alike what decoding asks below a node of a kind. -/
structure Repository.AgreesBelow (parent : NodeKind) (r r' : Repository) : Prop where
  hasPage : ∀ page, r'.hasPage page = r.hasPage page
  hasSpace : ∀ space, r'.hasSpace space = r.hasSpace space
  files : ∀ page, parent = .page page → r'.files page = r.files page

theorem Repository.AgreesBelow.refl (parent : NodeKind) (r : Repository) : r.AgreesBelow parent r :=
  ⟨fun _ => rfl, fun _ => rfl, fun _ _ => rfl⟩

namespace Context

/-- A token names a letter group rather than the page of that name. -/
def namesGroup (ctx : Context) (token : String) (last : Bool) : Bool :=
  ReservedName.isGroup token && !ctx.mayBeNew last

/-- A token names a page directly in a space whether or not there is a space of that name. -/
def namesPage (ctx : Context) (space : Space) (token : String) (last : Bool) : Bool :=
  ctx.intent.isCreateCollection || ctx.moving? last == some .page ||
    ctx.repository.hasPage (.inSpace token space)

/-- A token names a nested space if it does not name a page. -/
def namesSpace (ctx : Context) (space : Space) (token : String) (last : Bool) : Bool :=
  ctx.moving? last == some .space || ctx.repository.hasSpace (space.child token)

/-- A token names an attachment of a page that holds `files`. -/
def namesFile (ctx : Context) (files : List String) (token : String) (last : Bool) : Bool :=
  files.contains token || (last && ctx.intent.isCreateFile) || ctx.moving? last == some .attachment

/-- A page read below another one, in the space of that one if it is relative. -/
def childOf (parent child : Page) : Page :=
  match parent.space with
  | some space => child.orInSpace space
  | none => child

/-- The kind of node that a token names below a node of another kind. -/
inductive Decodes (ctx : Context) (token : String) (last : Bool) : NodeKind → NodeKind → Prop
  | scratch {parent} (hparent : parent.capabilities.canDecode = true)
      (htoken : ReservedName.isScratch token = true) : Decodes ctx token last parent (.scratch token)
  | view {kind} (htoken : ReservedName.isScratch token = false)
      (h : decodeBaseView token = .ok kind) : Decodes ctx token last .root kind
  | topLevel (htoken : ReservedName.isScratch token = false)
      (hnew : (last && ctx.intent.isCreateFile) = false) :
      Decodes ctx token last (.baseView .pages) (.space (.topLevel token) .pages)
  | listed {space} (htoken : ReservedName.isScratch token = false)
      (h : Space.ofText token = .ok space) :
      Decodes ctx token last (.baseView .attachments) (.space space .attachments)
  | orphan {page} (htoken : ReservedName.isScratch token = false) (h : Page.ofText token = .ok page)
      (hspace : page.space.isSome = true) (hpage : ctx.repository.hasPage page = true)
      (hnew : ctx.mayBeNew last = false) : Decodes ctx token last .orphans (.page page)
  | group {space group} (htoken : ReservedName.isScratch token = false)
      (hgroup : ctx.namesGroup token last = true) (h : LetterGroup.ofToken token = .ok group) :
      Decodes ctx token last (.space space .pages) (.pageGroup space group)
  | own {space} (htoken : ReservedName.isScratch token = false)
      (hgroup : ctx.namesGroup token last = false) (hpage : ctx.namesPage space token last = true) :
      Decodes ctx token last (.space space .pages) (.page (.inSpace token space))
  | nested {space} (htoken : ReservedName.isScratch token = false)
      (hgroup : ctx.namesGroup token last = false) (hpage : ctx.namesPage space token last = false)
      (hspace : ctx.namesSpace space token last = true) :
      Decodes ctx token last (.space space .pages) (.space (space.child token) .pages)
  | full {space page} (htoken : ReservedName.isScratch token = false)
      (hgroup : ctx.namesGroup token last = false) (hpage : ctx.namesPage space token last = false)
      (hspace : ctx.namesSpace space token last = false)
      (h : ctx.pageByFullName? space token = some page) :
      Decodes ctx token last (.space space .pages) (.page page)
  | fileGroup {space group} (htoken : ReservedName.isScratch token = false)
      (hgroup : ctx.namesGroup token last = true) (h : LetterGroup.ofToken token = .ok group) :
      Decodes ctx token last (.space space .attachments) (.attachmentGroup space group)
  | holder {space} (htoken : ReservedName.isScratch token = false)
      (hgroup : ctx.namesGroup token last = false)
      (hpage : ctx.repository.hasPage (.inSpace token space) = true) :
      Decodes ctx token last (.space space .attachments) (.page (.inSpace token space))
  | grouped {space group} (htoken : ReservedName.isScratch token = false)
      (hgroup : group.holds token = true) (hnew : (last && ctx.intent.isCreateFile) = false) :
      Decodes ctx token last (.pageGroup space group) (.page (.inSpace token space))
  | groupedHolder {space group} (htoken : ReservedName.isScratch token = false)
      (hpage : ctx.repository.hasPage (.inSpace token space) = true)
      (hnew : ctx.mayBeNew last = false) :
      Decodes ctx token last (.attachmentGroup space group) (.page (.inSpace token space))
  | wikiFile {page format} (htoken : ReservedName.isScratch token = false)
      (h : FileFormat.ofFileName? token = some format) :
      Decodes ctx token last (.page page) (.wikiFile page format)
  | attachment {page files} (htoken : ReservedName.isScratch token = false)
      (hformat : FileFormat.ofFileName? token = none)
      (hfiles : ctx.repository.files page = .ok files)
      (h : ctx.namesFile files token last = true) :
      Decodes ctx token last (.page page) (.attachment ⟨page, token⟩)
  | child {page files child} (htoken : ReservedName.isScratch token = false)
      (hformat : FileFormat.ofFileName? token = none)
      (hfiles : ctx.repository.files page = .ok files)
      (hfile : ctx.namesFile files token last = false) (h : Page.ofText token = .ok child) :
      Decodes ctx token last (.page page) (.page (childOf page child))

variable {ctx : Context} {parent kind : NodeKind} {path token : String} {last : Bool}

/-- While a directory is created every token below a space names a page. -/
theorem namesPage_of_create (hcreate : ctx.intent = .createCollection) (space : Space) (last : Bool) :
    ctx.namesPage space token last = true := by
  simp [namesPage, hcreate, Intent.isCreateCollection]

theorem decodeBaseView_ok (h : decodeBaseView token = .ok kind) :
    (∃ view, kind = .baseView view) ∨ kind = .orphans := by
  simp only [decodeBaseView] at h
  split at h
  · exact .inl ⟨_, (Except.ok.inj h).symm⟩
  · split at h
    · exact .inl ⟨_, (Except.ok.inj h).symm⟩
    · split at h
      · exact .inr (Except.ok.inj h).symm
      · cases h

/-- A page is named in full by a text that begins with the last segment of the name of the space that is
asked and is read as a stored page, whatever space that page is in. -/
theorem pageByFullName?_eq_some {space : Space} {page : Page} :
    ctx.pageByFullName? space token = some page ↔
      space.name.toList ++ ['.'] <+: token.toList ∧ Page.ofText token = .ok page ∧
        page.space.isSome = true ∧ ctx.repository.hasPage page = true := by
  simp only [pageByFullName?, List.isPrefixOf_iff_prefix]
  split
  next hbegins =>
    cases Page.ofText token with
    | error e => simp
    | ok found =>
      simp only [hbegins, Option.ite_none_right_eq_some, Bool.and_eq_true, Option.some.injEq,
        Except.ok.injEq, true_and]
      constructor
      · rintro ⟨hstored, rfl⟩
        exact ⟨rfl, hstored⟩
      · rintro ⟨rfl, hstored⟩
        exact ⟨hstored, rfl⟩
  next hbegins => simp [hbegins]

/-- Scratch files are found at the tokens that name them and at no others. -/
theorem Decodes.isScratch_iff (h : ctx.Decodes token last parent kind) :
    ReservedName.isScratch token = true ↔ ∃ name, kind = .scratch name := by
  cases h with
  | scratch _ htoken => simp [htoken]
  | view htoken hview => obtain ⟨_, rfl⟩ | rfl := decodeBaseView_ok hview <;> simp [htoken]
  | _ => simp_all

private theorem decodes_in_space {space : Space} (htoken : ReservedName.isScratch token = false)
    (h : ctx.decodeInSpace space token last = .ok (some kind)) :
    ctx.Decodes token last (.space space .pages) kind := by
  simp only [decodeInSpace] at h
  split at h
  next hgroup =>
    obtain ⟨group, hg, hk⟩ := Except.map_eq_ok.1 h
    obtain rfl := Option.some.inj hk
    exact .group htoken hgroup hg
  next hgroup =>
    simp only [Bool.not_eq_true] at hgroup
    split at h
    next hpage =>
      obtain rfl := Option.some.inj (Except.ok.inj h)
      exact .own htoken hgroup hpage
    next hpage =>
      simp only [Bool.not_eq_true] at hpage
      split at h
      next hspace =>
        obtain rfl := Option.some.inj (Except.ok.inj h)
        exact .nested htoken hgroup hpage hspace
      next hspace =>
        simp only [Bool.not_eq_true] at hspace
        obtain ⟨page, hp, rfl⟩ := Option.map_eq_some_iff.1 (Except.ok.inj h)
        exact .full htoken hgroup hpage hspace hp

theorem decodeInPage_eq {page : Page} {files : List String}
    (hformat : FileFormat.ofFileName? token = none) (hfiles : ctx.repository.files page = .ok files) :
    ctx.decodeInPage page token last =
      if ctx.namesFile files token last then .ok (.attachment ⟨page, token⟩)
      else
        match Page.ofText token with
        | .error e => .error (.ofReference e)
        | .ok child => .ok (.page (childOf page child)) := by
  unfold decodeInPage namesFile childOf
  simp only [hformat, hfiles]
  split
  · rfl
  · cases Page.ofText token with
    | error e => rfl
    | ok child => cases page.space <;> rfl

private theorem decodes_in_page {page : Page} (htoken : ReservedName.isScratch token = false)
    (h : ctx.decodeInPage page token last = .ok kind) :
    ctx.Decodes token last (.page page) kind := by
  cases hformat : FileFormat.ofFileName? token with
  | some format =>
    simp only [decodeInPage, hformat, Except.ok.injEq] at h
    exact h ▸ .wikiFile htoken hformat
  | none =>
    cases hfiles : ctx.repository.files page with
    | error e => simp [decodeInPage, hformat, hfiles] at h
    | ok files =>
      rw [decodeInPage_eq hformat hfiles] at h
      split at h
      next hfile => exact Except.ok.inj h ▸ .attachment htoken hformat hfiles hfile
      next hfile =>
        simp only [Bool.not_eq_true] at hfile
        split at h
        · cases h
        next child hc => exact Except.ok.inj h ▸ .child htoken hformat hfiles hfile hc

private theorem decodes_of_decode (h : ctx.decode parent path token last = .ok kind) :
    ctx.Decodes token last parent kind := by
  simp only [decode] at h
  split at h
  · cases h
  next hdecode =>
    simp only [Bool.not_eq_true, Bool.not_eq_false'] at hdecode
    split at h
    next htoken =>
      obtain rfl := Except.ok.inj h
      exact .scratch hdecode htoken
    next htoken =>
      simp only [Bool.not_eq_true] at htoken
      cases parent with
      | root => exact .view htoken h
      | baseView view =>
        cases view with
        | pages =>
          simp only at h
          split at h
          · cases h
          next hnew =>
            obtain rfl := Except.ok.inj h
            exact .topLevel htoken (by simpa using hnew)
        | attachments =>
          simp only at h
          split at h
          next space hspace =>
            obtain rfl := Except.ok.inj h
            exact .listed htoken hspace
          · cases h
      | orphans =>
        simp only at h
        split at h
        · cases h
        next page hpage =>
          split at h
          · cases h
          next hnot =>
            obtain rfl := Except.ok.inj h
            simp only [Bool.or_eq_true, Bool.not_eq_true', not_or, Bool.not_eq_false,
              Bool.not_eq_true, Option.isNone_eq_false_iff] at hnot
            exact .orphan htoken hpage hnot.1.1 hnot.1.2 hnot.2
      | space space view =>
        cases view with
        | pages =>
          simp only at h
          split at h
          · cases h
          next kind hk =>
            obtain rfl := Except.ok.inj h
            exact decodes_in_space htoken hk
          · cases h
        | attachments =>
          simp only at h
          split at h
          next hgroup =>
            obtain ⟨group, hg, rfl⟩ := Except.map_eq_ok.1 h
            exact .fileGroup htoken hgroup hg
          next hgroup =>
            simp only [Bool.not_eq_true] at hgroup
            split at h
            next hpage =>
              obtain rfl := Except.ok.inj h
              exact .holder htoken hgroup hpage
            · cases h
      | pageGroup space group =>
        simp only at h
        split at h
        · cases h
        next hnot =>
          obtain rfl := Except.ok.inj h
          simp only [Bool.or_eq_true, Bool.not_eq_true', not_or, Bool.not_eq_false,
            Bool.not_eq_true] at hnot
          exact .grouped htoken hnot.1 hnot.2
      | attachmentGroup space group =>
        simp only at h
        split at h
        · cases h
        next hnot =>
          obtain rfl := Except.ok.inj h
          simp only [Bool.or_eq_true, Bool.not_eq_true', not_or, Bool.not_eq_false,
            Bool.not_eq_true] at hnot
          exact .groupedHolder htoken hnot.1 hnot.2
      | page page => exact decodes_in_page htoken h
      | attachment _ => cases h
      | wikiFile _ _ => cases h
      | scratch _ => cases h

/-- Decoding succeeds exactly where a rule applies. -/
theorem decode_eq_ok_iff :
    ctx.decode parent path token last = .ok kind ↔ ctx.Decodes token last parent kind := by
  refine ⟨decodes_of_decode, fun h => ?_⟩
  cases h with
  | scratch hparent htoken => simp [decode, hparent, htoken]
  | view htoken h => simpa [decode, htoken, NodeKind.capabilities] using h
  | topLevel htoken hnew => simpa [decode, htoken, NodeKind.capabilities] using hnew
  | listed htoken h => simp [decode, htoken, NodeKind.capabilities, h]
  | orphan htoken h hspace hpage hnew =>
    have hsome := Option.isSome_iff_ne_none.1 hspace
    simpa [decode, htoken, NodeKind.capabilities, h, hpage, hnew] using hsome
  | group htoken hgroup h =>
    rw [namesGroup] at hgroup
    simp [decode, htoken, NodeKind.capabilities, decodeInSpace, hgroup, h, Except.map]
  | own htoken hgroup hpage =>
    rw [namesGroup] at hgroup
    rw [namesPage] at hpage
    simp [decode, htoken, NodeKind.capabilities, decodeInSpace, hgroup, hpage]
  | nested htoken hgroup hpage hspace =>
    rw [namesGroup] at hgroup
    rw [namesPage] at hpage
    rw [namesSpace] at hspace
    simp [decode, htoken, NodeKind.capabilities, decodeInSpace, hgroup, hpage, hspace]
  | full htoken hgroup hpage hspace h =>
    rw [namesGroup] at hgroup
    rw [namesPage] at hpage
    rw [namesSpace] at hspace
    simp [decode, htoken, NodeKind.capabilities, decodeInSpace, hgroup, hpage, hspace, h]
  | fileGroup htoken hgroup h =>
    rw [namesGroup] at hgroup
    simp [decode, htoken, NodeKind.capabilities, hgroup, h, Except.map]
  | holder htoken hgroup hpage =>
    rw [namesGroup] at hgroup
    simp [decode, htoken, NodeKind.capabilities, hgroup, hpage]
  | grouped htoken hgroup hnew => simpa [decode, htoken, NodeKind.capabilities, hgroup] using hnew
  | groupedHolder htoken hpage hnew => simp [decode, htoken, NodeKind.capabilities, hpage, hnew]
  | wikiFile htoken h => simp [decode, htoken, NodeKind.capabilities, decodeInPage, h]
  | attachment htoken hformat hfiles h =>
    simp [decode, htoken, NodeKind.capabilities, decodeInPage_eq hformat hfiles, h]
  | child htoken hformat hfiles hfile h =>
    simp [decode, htoken, NodeKind.capabilities, decodeInPage_eq hformat hfiles, hfile, h]

/-- What a token names depends on the answers of the repository, on what the request may create or moves
at this token, and in a space directory on whether it creates a directory. -/
theorem Decodes.congr {ctx' : Context} {last' : Bool} (h : ctx.Decodes token last parent kind)
    (hrepo : ctx.repository.AgreesBelow parent ctx'.repository)
    (hnew : ctx'.mayBeNew last' = ctx.mayBeNew last)
    (hfile : (last' && ctx'.intent.isCreateFile) = (last && ctx.intent.isCreateFile))
    (hmoving : ctx'.moving? last' = ctx.moving? last)
    (hcreate : ∀ space, parent = .space space .pages →
      ctx'.intent.isCreateCollection = ctx.intent.isCreateCollection) :
    ctx'.Decodes token last' parent kind := by
  have hgroups : ctx'.namesGroup token last' = ctx.namesGroup token last := by
    simp only [namesGroup, hnew]
  have hpages : ∀ space, parent = .space space .pages →
      ctx'.namesPage space token last' = ctx.namesPage space token last := fun space hparent => by
    simp only [namesPage, hmoving, hrepo.hasPage, hcreate space hparent]
  have hspaces : ∀ space, ctx'.namesSpace space token last' = ctx.namesSpace space token last :=
    fun space => by simp only [namesSpace, hmoving, hrepo.hasSpace]
  have hnamed : ∀ files, ctx'.namesFile files token last' = ctx.namesFile files token last :=
    fun files => by simp only [namesFile, hmoving, hfile]
  cases h with
  | scratch hparent htoken => exact .scratch hparent htoken
  | view htoken h => exact .view htoken h
  | topLevel htoken hnew => exact .topLevel htoken (hfile.trans hnew)
  | listed htoken h => exact .listed htoken h
  | @orphan page htoken h hspace hpage hnot =>
    exact .orphan htoken h hspace ((hrepo.hasPage page).trans hpage) (hnew.trans hnot)
  | group htoken hgroup h => exact .group htoken (hgroups.trans hgroup) h
  | @own space htoken hgroup hpage =>
    exact .own htoken (hgroups.trans hgroup) ((hpages space rfl).trans hpage)
  | @nested space htoken hgroup hpage hspace =>
    exact .nested htoken (hgroups.trans hgroup) ((hpages space rfl).trans hpage)
      ((hspaces space).trans hspace)
  | @full space page htoken hgroup hpage hspace h =>
    refine .full htoken (hgroups.trans hgroup) ((hpages space rfl).trans hpage)
      ((hspaces space).trans hspace) ?_
    simpa only [pageByFullName?, hrepo.hasPage] using h
  | fileGroup htoken hgroup h => exact .fileGroup htoken (hgroups.trans hgroup) h
  | holder htoken hgroup hpage =>
    exact .holder htoken (hgroups.trans hgroup) ((hrepo.hasPage _).trans hpage)
  | grouped htoken hgroup hnot => exact .grouped htoken hgroup (hfile.trans hnot)
  | groupedHolder htoken hpage hnot =>
    exact .groupedHolder htoken ((hrepo.hasPage _).trans hpage) (hnew.trans hnot)
  | wikiFile htoken h => exact .wikiFile htoken h
  | @attachment page files htoken hformat hfiles h =>
    exact .attachment htoken hformat ((hrepo.files page rfl).trans hfiles) ((hnamed files).trans h)
  | @child page files child htoken hformat hfiles hfile h =>
    exact .child htoken hformat ((hrepo.files page rfl).trans hfiles) ((hnamed files).trans hfile) h

end Context

end WikiMount
