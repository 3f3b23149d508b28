import WikiMount.Proofs.Node.Visibility

/-!
# Hidden pages leave no trace

The directories of spaces and their letter groups show the same in two repositories that differ in pages
the caller may not view. On the way to such a directory no token is looked up among the pages, and where it
ends pages are filtered by the policy before they are counted and grouped. The lists that remain are in
ascending order, so they are the same as soon as they have the same members.
-/

namespace WikiMount

/-- Two repositories that know the same spaces and store the same pages with files and pages without
files, as far as the policy lets pages be viewed. -/
structure Repository.AlikeFor (policy : Policy) (r r' : Repository) : Prop where
  broken : r'.broken = r.broken
  spaces : ∀ space, r'.hasSpace space = r.hasSpace space
  pages : ∀ page, policy.grants .view (.page page) = true → r'.hasPage page = r.hasPage page
  held : ∀ page, policy.grants .view (.page page) = true → r.hasPage page = true →
    (r'.store.filesOf page).isEmpty = (r.store.filesOf page).isEmpty

namespace NodeKind

/-- What a read finds at the token below a node of this kind does not depend on the stored pages. -/
def ignoresPages (kind : NodeKind) (token : String) : Bool :=
  match kind with
  | .space _ _ => ReservedName.isGroup token
  | .orphans | .page _ | .attachmentGroup _ _ => false
  | _ => true

/-- Below a node of this kind no pages are listed for their place in the page hierarchy. -/
def ignoresHierarchy : NodeKind → Bool
  | .orphans | .page _ => false
  | _ => true

end NodeKind

namespace Context

/-- The context with another repository. -/
def onRepository (ctx : Context) (r : Repository) : Context := { ctx with repository := r }

variable {ctx : Context} {r : Repository} {t t' : Tree} {id child : Nat} {kind : NodeKind}
  {path token name : String} {tokens rest : List String} {last : Bool} {view : View}

/-! ## Lists of visible pages -/

theorem visible_congr {pages pages' : List Page} (h : pages.Pairwise fun p q => compare p q = .lt)
    (h' : pages'.Pairwise fun p q => compare p q = .lt)
    (hmem : ∀ page, ctx.canView page = true → (page ∈ pages ↔ page ∈ pages')) :
    ctx.visible pages = ctx.visible pages' := by
  refine SortedMap.eq_of_ascending (h.filter _) (h'.filter _) fun page => ?_
  simp only [mem_visible]
  exact and_congr_left (hmem page)

theorem visible_asked_congr {m : Method} {pages pages' : List Page}
    (hbroken : r.broken = ctx.repository.broken)
    (h : pages.Pairwise fun p q => compare p q = .lt)
    (h' : pages'.Pairwise fun p q => compare p q = .lt)
    (hmem : ∀ page, ctx.canView page = true → (page ∈ pages' ↔ page ∈ pages)) :
    ctx.visible (listed (r.asked m (.ok pages'))) =
      ctx.visible (listed (ctx.repository.asked m (.ok pages))) := by
  simp only [Repository.asked, hbroken]
  split
  · rfl
  · exact visible_congr h' h hmem

section Alike

variable (hs : ctx.repository.store.Upkept) (hs' : r.store.Upkept)
  (hr : ctx.repository.AlikeFor ctx.caller.policy r)

include hr

theorem visible_pagesIn (space : Space) : ctx.visible (listed (r.pagesIn space)) =
    ctx.visible (listed (ctx.repository.pagesIn space)) := by
  refine visible_asked_congr hr.broken (Store.pagesIn_ascending _ space)
    (Store.pagesIn_ascending _ space) fun page hview => ?_
  have hpage : r.store.hasPage page = ctx.repository.store.hasPage page := hr.pages page hview
  rw [Store.mem_pagesIn, Store.mem_pagesIn, hpage]

theorem visible_pagesBeginning (space : Space) (beginning : String) :
    ctx.visible (listed (r.pagesBeginning space beginning)) =
      ctx.visible (listed (ctx.repository.pagesBeginning space beginning)) := by
  refine visible_asked_congr hr.broken (Store.pagesBeginning_ascending _ space beginning)
    (Store.pagesBeginning_ascending _ space beginning) fun page hview => ?_
  have hpage : r.store.hasPage page = ctx.repository.store.hasPage page := hr.pages page hview
  rw [Store.mem_pagesBeginning, Store.mem_pagesBeginning, hpage]

include hs hs'

/-- Only stored pages hold files, so it is enough to ask stored pages for their files. -/
theorem visible_pagesWithFiles (space : Space) : ctx.visible (listed (r.pagesWithFiles space)) =
    ctx.visible (listed (ctx.repository.pagesWithFiles space)) := by
  refine visible_asked_congr hr.broken (Store.pagesWithFiles_ascending _ space)
    (Store.pagesWithFiles_ascending _ space) fun page hview => ?_
  have hpage : r.store.hasPage page = ctx.repository.store.hasPage page := hr.pages page hview
  rw [Store.mem_pagesWithFiles, Store.mem_pagesWithFiles]
  refine and_congr_right fun _ => ⟨fun h => ?_, fun h => ?_⟩
  · have hstored := hpage.symm.trans (hs'.hasPage_of_files h)
    rwa [← hr.held page hview hstored]
  · have hstored := hs.hasPage_of_files h
    rwa [hr.held page hview hstored]

/-- A listing that does not ask for the page hierarchy offers the same in both repositories. -/
theorem candidates_onRepository (hk : (t.kind id).ignoresHierarchy = true) :
    (ctx.onRepository r).candidates t id = ctx.candidates t id := by
  have hspaces : r.store.spaces = ctx.repository.store.spaces := SortedMap.eq_of_contains hr.spaces
  have hstored : (ctx.onRepository r).stored? t id = ctx.stored? t id := by
    have hvisible : (ctx.onRepository r).visible = ctx.visible := rfl
    have hgrouped : ∀ asGroup, (ctx.onRepository r).grouped asGroup = ctx.grouped asGroup := fun _ => rfl
    have hrepository : (ctx.onRepository r).repository = r := rfl
    have hfilter : ∀ (p : Page → Bool) pages,
        ctx.visible (pages.filter p) = (ctx.visible pages).filter p := fun p pages => by
      simp only [visible, List.filter_filter, Bool.and_comm]
    cases hkind : t.kind id with
    | orphans | page _ =>
      rw [hkind] at hk
      cases hk
    | baseView view =>
      cases view <;> simp only [stored?, hkind, hrepository, Repository.topLevelSpaces,
        Repository.allSpaces, Store.topLevelSpaces, Store.allSpaces, Repository.asked, hspaces,
        hr.broken]
    | space space view =>
      cases view with
      | pages =>
        simp only [stored?, hkind, hrepository, hvisible, hgrouped, visible_pagesIn hr,
          Repository.spacesIn, Store.spacesIn, Repository.asked, hspaces, hr.broken]
      | attachments =>
        simp only [stored?, hkind, hrepository, hvisible, hgrouped, visible_pagesWithFiles hs hs' hr]
    | pageGroup space group =>
      simp only [stored?, hkind, hrepository, hvisible, visible_pagesBeginning hr]
    | attachmentGroup space group =>
      simp only [stored?, hkind, hrepository, hvisible, hfilter, visible_pagesWithFiles hs hs' hr]
    | root | attachment _ | wikiFile _ _ | scratch _ => simp only [stored?, hkind]
  simp only [candidates, hstored]
  rfl

end Alike

/-! ## The way to a directory -/

theorem decode_onRepository (hread : ctx.intent = .read) (h : kind.ignoresPages token = true) :
    (ctx.onRepository r).decode kind path token last = ctx.decode kind path token last := by
  cases kind with
  | space space view =>
    have hgroup : ReservedName.isGroup token = true := h
    have hnew : ctx.mayBeNew last = false := by simp [mayBeNew, hread, Intent.isCreateOrMove]
    have hnew' : (ctx.onRepository r).mayBeNew last = false := hnew
    cases view <;> simp [decode, decodeInSpace, hgroup, hnew, hnew']
  | orphans | page _ | attachmentGroup _ _ => cases h
  | baseView view => cases view <;> rfl
  | _ => rfl

/-- From a node of this kind the tokens lead past the pages: none of them is looked up among the pages,
and where they end the page hierarchy is not asked. -/
def Bypasses (ctx : Context) : NodeKind → List String → Prop
  | kind, [] => kind.ignoresHierarchy = true
  | kind, token :: rest => kind.ignoresPages token = true ∧
    ∀ last child, ctx.Decodes token last kind child → ctx.Bypasses child rest

theorem resolve_onRepository (hread : ctx.intent = .read) (h : ctx.Bypasses (t.kind id) tokens) :
    (ctx.onRepository r).resolve t id tokens = ctx.resolve t id tokens := by
  induction tokens generalizing t id with
  | nil => rfl
  | cons token rest ih =>
    obtain ⟨hpages, hrest⟩ := h
    have hstep : (ctx.onRepository r).step t id token rest.isEmpty =
        ctx.step t id token rest.isEmpty := by
      simp only [step, decode_onRepository hread hpages]
    simp only [resolve, hstep]
    cases hs : ctx.step t id token rest.isEmpty with
    | error e => rfl
    | ok found =>
      obtain ⟨child, t'⟩ := found
      obtain ⟨kind, hdecodes, hinsert⟩ := step_eq_ok.1 hs
      have hkind : t'.kind child = kind := Tree.kind_insert_self hinsert
      exact ih (hkind ▸ hrest _ kind hdecodes)

theorem Bypasses.resolve (h : ctx.Bypasses (t.kind id) tokens)
    (hr : ctx.resolve t id tokens = (.ok child, t')) : (t'.kind child).ignoresHierarchy = true := by
  induction tokens generalizing t id with
  | nil =>
    obtain ⟨hid, rfl⟩ := Prod.mk.inj hr
    exact Except.ok.inj hid ▸ h
  | cons token rest ih =>
    simp only [Context.resolve] at hr
    split at hr
    · simp at hr
    next next t₁ hs =>
      obtain ⟨kind, hdecodes, hinsert⟩ := step_eq_ok.1 hs
      have hkind : t₁.kind next = kind := Tree.kind_insert_self hinsert
      exact ih (hkind ▸ h.2 _ kind hdecodes) hr

/-- A path that leads past the pages is listed alike. -/
theorem list_onRepository (hs : ctx.repository.store.Upkept) (hs' : r.store.Upkept)
    (hr : ctx.repository.AlikeFor ctx.caller.policy r) (hread : ctx.intent = .read)
    (hpath : ∀ tokens, Path.tokens path = .ok tokens → ctx.Bypasses .root tokens) :
    (ctx.onRepository r).list path = ctx.list path := by
  have hlookup : (ctx.onRepository r).lookup path = ctx.lookup path := by
    simp only [lookup, resolvePath]
    cases htokens : Path.tokens path with
    | error e => rfl
    | ok tokens =>
      have hresolve : (ctx.onRepository r).resolve .new 0 tokens = ctx.resolve .new 0 tokens :=
        resolve_onRepository hread (hpath tokens htokens)
      simp only [hresolve]
  simp only [list, hlookup]
  cases hl : ctx.lookup path with
  | error e => rfl
  | ok found =>
    obtain ⟨id, t⟩ := found
    obtain ⟨tokens, htokens, hresolve⟩ := resolvePath_eq_ok_iff.1 (lookup_eq_ok_iff.1 hl)
    have hkind : (t.kind id).ignoresHierarchy = true :=
      Bypasses.resolve (hpath tokens htokens) hresolve
    have hmembers : (ctx.onRepository r).members t id = ctx.members t id := by
      simp only [members, candidates_onRepository hs hs' hr hkind]
    simp only [bind, Except.bind, hmembers]

/-! ## Spaces and their letter groups -/

theorem bypasses_scratch (name : String) (rest : List String) : ctx.Bypasses (.scratch name) rest := by
  cases rest with
  | nil => rfl
  | cons token rest =>
    refine ⟨rfl, fun last child h => ?_⟩
    cases h with
    | scratch hparent _ => cases hparent

theorem bypasses_group (hread : ctx.intent = .read) (hgroup : ReservedName.isGroup token = true)
    (space : Space) (view : View) : ctx.Bypasses (.space space view) [token] := by
  refine ⟨hgroup, fun last child h => ?_⟩
  have hnames : ctx.namesGroup token last = true := by
    simp [namesGroup, mayBeNew, hread, Intent.isCreateOrMove, hgroup]
  cases h with
  | scratch | group | fileGroup => rfl
  | own _ hnot | nested _ hnot | full _ hnot | holder _ hnot =>
    rw [hnames] at hnot
    cases hnot

theorem bypasses_baseView (h : ∀ space, ctx.Bypasses (.space space view) rest) (token : String) :
    ctx.Bypasses (.baseView view) (token :: rest) := by
  refine ⟨rfl, fun last child hdecodes => ?_⟩
  cases hdecodes with
  | scratch => exact bypasses_scratch token rest
  | topLevel => exact h _
  | listed => exact h _

theorem bypasses_root (h : ctx.Bypasses (.baseView view) rest) :
    ctx.Bypasses .root ((NodeKind.baseView view).displayName :: rest) := by
  refine ⟨rfl, fun last child hdecodes => ?_⟩
  cases hdecodes with
  | scratch _ htoken => cases view <;> exact absurd htoken (by decide)
  | view _ hview =>
    have hself : decodeBaseView (NodeKind.baseView view).displayName = .ok (.baseView view) := by
      cases view <;> rfl
    exact Except.ok.inj (hself.symm.trans hview) ▸ h

/-- The directory of a space in a view, and that of a letter group in it, lead past the pages. -/
theorem bypasses_directory (ctx : Context) (view : View) (hread : ctx.intent = .read)
    (hgroup : ReservedName.isGroup token = true)
    (hname : '/' ∉ name.toList) (htoken : '/' ∉ token.toList) :
    (∀ tokens, Path.tokens (Path.written [(NodeKind.baseView view).displayName, name]) = .ok tokens →
      ctx.Bypasses .root tokens) ∧
    ∀ tokens, Path.tokens (Path.written [(NodeKind.baseView view).displayName, name, token]) =
      .ok tokens → ctx.Bypasses .root tokens := by
  have hview : '/' ∉ (NodeKind.baseView view).displayName.toList ∧
      (NodeKind.baseView view).displayName ≠ "" := by
    cases view <;> decide
  have hgroupName : token ≠ "" := by
    rintro rfl
    exact absurd hgroup (by decide)
  constructor
  · intro tokens htokens
    by_cases hempty : name = ""
    · -- Without a name the path is that of the view itself.
      have hslash : Path.tokens (Path.written [(NodeKind.baseView view).displayName, ""]) =
          .ok [(NodeKind.baseView view).displayName] := by
        cases view <;> decide +kernel
      rw [hempty, hslash] at htokens
      obtain rfl := Except.ok.inj htokens
      exact bypasses_root rfl
    · rw [Path.tokens_joined (by simp) (by simp [hview.1, hname]) (by simp [hview.2])
        (by simp [hempty])] at htokens
      obtain ⟨rfl, _⟩ := Path.mapM_checkToken.1 htokens
      have hspace : ∀ space, ctx.Bypasses (.space space view) [] := fun _ => rfl
      exact bypasses_root (bypasses_baseView hspace name)
  · intro tokens htokens
    rw [Path.tokens_joined (by simp) (by simp [hview.1, hname, htoken]) (by simp [hview.2])
      (by simp [hgroupName])] at htokens
    obtain ⟨rfl, _⟩ := Path.mapM_checkToken.1 htokens
    exact bypasses_root (bypasses_baseView (fun space => bypasses_group hread hgroup space view) name)

end Context

namespace Service

variable {s s' : Service} {caller : Caller} {name token : String} {space : Space}

/-- The directory of a space and its letter groups, in both views, list the same whatever pages there are
that the caller may not view. -/
theorem handle_list_alike (hs : s.repository.store.Reachable) (hs' : s'.repository.store.Reachable)
    (hconfig : s'.config = s.config)
    (hscratch : (s'.context caller .read).scratch = (s.context caller .read).scratch)
    (hr : s.repository.AlikeFor caller.policy s'.repository)
    (hname : '/' ∉ name.toList) (hspace : '/' ∉ space.text.toList) (htoken : '/' ∉ token.toList)
    (hgroup : ReservedName.isGroup token = true) :
    ∀ path ∈ ["/spaces/" ++ name, "/spaces/" ++ name ++ "/" ++ token,
      "/attachments/" ++ space.text, "/attachments/" ++ space.text ++ "/" ++ token],
      (s'.handle caller (.list path)).1 = (s.handle caller (.list path)).1 := by
  have hcontext : s'.context caller .read = (s.context caller .read).onRepository s'.repository := by
    simp only [context, Option.some.injEq] at hscratch
    simp only [context, Context.onRepository, hconfig, hscratch]
  have hlist : ∀ path, (∀ tokens, Path.tokens path = .ok tokens →
      (s.context caller .read).Bypasses .root tokens) →
      (s'.handle caller (.list path)).1 = (s.handle caller (.list path)).1 := by
    intro path hpath
    rw [handle_list, handle_list, hcontext, Context.list_onRepository hs.upkept hs'.upkept hr rfl hpath]
  have hwritten : ∀ first second third : String,
      "/" ++ first ++ "/" ++ second = Path.written [first, second] ∧
      Path.written [first, second] ++ "/" ++ third = Path.written [first, second, third] := by
    intro first second third
    constructor <;> apply String.toList_injective <;> simp [Path.written]
  have hpages : "/spaces/" = "/" ++ (NodeKind.baseView .pages).displayName ++ "/" := rfl
  have hfiles : "/attachments/" = "/" ++ (NodeKind.baseView .attachments).displayName ++ "/" := rfl
  obtain ⟨hdirectory, hpageGroup⟩ :=
    (s.context caller .read).bypasses_directory .pages rfl hgroup hname htoken
  obtain ⟨hholders, hfileGroup⟩ :=
    (s.context caller .read).bypasses_directory .attachments rfl hgroup hspace htoken
  simp only [List.forall_mem_cons, hpages, hfiles, (hwritten _ _ token).1, (hwritten _ _ token).2]
  exact ⟨hlist _ hdirectory, hlist _ hpageGroup, hlist _ hholders, hlist _ hfileGroup, by simp⟩

/-- Two pages make groups here, but one of the two is hidden: the space lists the other page itself. -/
theorem handle_list_alike_at_threshold :
    let a := Page.inSpace "A" (.topLevel "Main")
    let b := Page.inSpace "B" (.topLevel "Main")
    let config := { Config.standard with grouping := ⟨2, 5, 9⟩ }
    let store := ((Store.ofPages [a, b]).write (.attach ⟨b, "b.txt"⟩ .empty)).2
    let s := Service.new (.ofStore store) config
    let caller : Caller := ⟨.anonymous, ⟨"HideB", fun _ e => e != .page b⟩⟩
    store.documents.keys = [a, b] ∧ (s.handle caller (.list "/spaces/Main")).1 =
      .ok (.entries [⟨"Main.A", "/spaces/Main/A", .page, true, some (.page a)⟩]) := by
  intro a b config store s caller
  let alone := Service.new (.ofStore (.ofPages [a])) config
  have hkeys : store.documents.keys = [a, b] := by decide
  have hput : store = (Store.ofPages [a, b]).putFile ⟨b, "b.txt"⟩ .empty := by decide
  have hother : ∀ page, caller.policy.grants .view (.page page) = true → page ≠ b := by
    rintro page hview rfl
    exact absurd hview (by decide)
  have hr : alone.repository.AlikeFor caller.policy s.repository := by
    refine ⟨rfl, fun space => ?_, fun page hview => ?_, fun page hview _ => ?_⟩
    · have hspaces : store.spaces = (Store.ofPages [a]).spaces := by decide
      exact congrArg (SortedMap.contains · space) hspaces
    · have halone : (Store.ofPages [a]).documents.keys = [a] := by decide
      have hpage : store.documents.contains page = true ↔
          (Store.ofPages [a]).documents.contains page = true := by
        rw [← SortedMap.mem_keys, ← SortedMap.mem_keys, hkeys, halone]
        simp [hother page hview]
      exact Bool.eq_iff_iff.2 hpage
    · have hfiles : store.filesOf page = .empty := by
        rw [hput, Store.filesOf_putFile, if_neg (hother page hview)]
        rfl
      have hnone : (Store.ofPages [a]).filesOf page = .empty := rfl
      exact congrArg SortedMap.isEmpty (hfiles.trans hnone.symm)
  have hs : store.Reachable := (Store.reachable_ofPages [a, b]).write _
  have hconfig : s.config = alone.config := rfl
  have hscratch : (s.context caller .read).scratch = (alone.context caller .read).scratch := rfl
  have hsame := handle_list_alike (Store.reachable_ofPages [a]) hs hconfig hscratch hr
    (by decide : '/' ∉ "Main".toList) (by decide : '/' ∉ (Space.topLevel "Main").text.toList)
    (by decide : '/' ∉ "_A_".toList) (by decide) "/spaces/Main" (.head _)
  refine ⟨hkeys, hsame.trans ?_⟩
  dsimp only [alone, caller, config, a, b]
  rfl

end Service

end WikiMount
