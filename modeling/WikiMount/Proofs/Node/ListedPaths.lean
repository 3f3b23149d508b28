import WikiMount.Proofs.Node.Listing
import WikiMount.Proofs.Reference.ReadBack
import WikiMount.Proofs.Session.ScratchFiles
import WikiMount.Proofs.Storage.Queries
import WikiMount.Proofs.Storage.Upkeep
import WikiMount.Proofs.Text.LetterGroups

/-!
# Listed paths lead back

The token that a member is listed under is chosen by one rule, and read back by another. Unless an
earlier rule of decoding claims the token for something else, the rules agree for every kind of node and
of member: the path of a listed entry leads to a node with the same entry. Names are read back because
escaping is undone, letter groups because uppercase text stays uppercase, and pages that hold files
because such pages are stored.
-/

namespace WikiMount

/-- A repository that is in order: its store has come about by calls, it answers every query, and what
it holds is well formed. -/
structure Repository.WellFormed (r : Repository) : Prop where
  reachable : r.store.Reachable
  working : r.broken = []
  pages : ∀ page, r.store.hasPage page = true → page.isWellFormed = true
  spaces : ∀ space, r.store.hasSpace space = true → space.isWellFormed = true

theorem Repository.WellFormed.ofStore {store : Store} (hs : store.Reachable)
    (hpages : ∀ page ∈ store.documents.keys, page.isWellFormed = true)
    (hspaces : ∀ space ∈ store.spaces.keys, space.isWellFormed = true) :
    (Repository.ofStore store).WellFormed :=
  ⟨hs, rfl, fun page h => hpages page (SortedMap.mem_keys.2 h),
    fun space h => hspaces space (SortedMap.mem_keys.2 h)⟩

namespace Context

/-- An earlier rule of decoding takes the token of a member for something else: for a scratch file, for a
letter group, for a page that is called like a nested space, for a file view of a page, or for a file that
is called like a child page. -/
inductive Claimed (ctx : Context) : NodeKind → NodeKind → String → Prop
  | scratch {parent kind : NodeKind} {token : String} (h : ReservedName.isScratch token = true)
      (hkind : ∀ name, kind ≠ .scratch name) : Claimed ctx parent kind token
  | groupForPage {space : Space} {view : View} {page : Page} {token : String}
      (h : ReservedName.isGroup token = true) : Claimed ctx (.space space view) (.page page) token
  | groupForSpace {space nested : Space} {view view' : View} {token : String}
      (h : ReservedName.isGroup token = true) :
      Claimed ctx (.space space view) (.space nested view') token
  | page {space nested : Space} {token : String}
      (h : ctx.repository.hasPage (.inSpace token space) = true) :
      Claimed ctx (.space space .pages) (.space nested .pages) token
  | wikiFile {page : Page} {format : FileFormat} {kind : NodeKind} {token : String}
      (h : FileFormat.ofFileName? token = some format) (hkind : kind ≠ .wikiFile page format) :
      Claimed ctx (.page page) kind token
  | file {page child : Page} {token : String}
      (h : token ∈ (ctx.repository.store.filesOf page).keys) :
      Claimed ctx (.page page) (.page child) token

variable {ctx : Context} {t t' : Tree} {id child dir : Nat} {ids : List Nat} {parent kind : NodeKind}
  {token segment path : String}

/-! ## What a token names to a read -/

theorem namesGroup_before_last : ctx.namesGroup token false = ReservedName.isGroup token := by
  simp [namesGroup, mayBeNew]

theorem namesPage_of_read (hread : ctx.intent = .read) (space : Space) :
    ctx.namesPage space token false = ctx.repository.hasPage (.inSpace token space) := by
  simp [namesPage, moving?, hread, Intent.isCreateCollection]

theorem namesSpace_before_last (space : Space) :
    ctx.namesSpace space token false = ctx.repository.hasSpace (space.child token) := by
  simp [namesSpace, moving?]

theorem namesFile_before_last (files : List String) :
    ctx.namesFile files token false = files.contains token := by
  simp [namesFile, moving?]

theorem childOf_self {page found : Page} {space : Space} (hpage : page.space.isSome = true)
    (h : found.space = some space) : childOf page found = found := by
  obtain ⟨own, hown⟩ := Option.isSome_iff_exists.1 hpage
  simp [childOf, hown, Page.orInSpace, h]

/-- The token of a child page is read back as that page. -/
theorem child_of_childToken {page found : Page} {space : Space} (hpage : page.space.isSome = true)
    (hspace : found.space = some space) (hwell : found.isWellFormed = true) :
    ∃ read, Page.ofText (childToken page found) = .ok read ∧ childOf page read = found := by
  simp only [childToken]
  split
  next hsame =>
    have hname : (Page.relative found.name).isWellFormed = true := by
      simp only [Page.isWellFormed, Bool.and_eq_true] at hwell
      simp [Page.isWellFormed, Page.relative, hwell.1]
    refine ⟨_, Page.ofText_text hname, ?_⟩
    have hown : page.space = some space := hsame.symm.trans hspace
    obtain ⟨own, name⟩ := found
    obtain rfl : own = some space := hspace
    simp [childOf, hown, Page.orInSpace, Page.relative, Page.inSpace]
  · exact ⟨found, Page.ofText_text hwell, childOf_self hpage hspace⟩

/-- The child pages of a page have different tokens. -/
theorem eq_of_childToken_eq {page found other : Page} {space space' : Space}
    (hpage : page.space.isSome = true) (hspace : found.space = some space)
    (hwell : found.isWellFormed = true) (hspace' : other.space = some space')
    (hwell' : other.isWellFormed = true) (h : childToken page found = childToken page other) :
    found = other := by
  obtain ⟨read, hread, hfound⟩ := child_of_childToken hpage hspace hwell
  obtain ⟨read', hread', hother⟩ := child_of_childToken hpage hspace' hwell'
  rw [h, hread'] at hread
  rw [← hfound, ← hother, Except.ok.inj hread]

theorem ofFileName?_of_not_claimed {page : Page} (hkind : ∀ format, kind ≠ .wikiFile page format)
    (h : ¬ctx.Claimed (.page page) kind token) : FileFormat.ofFileName? token = none := by
  cases hf : FileFormat.ofFileName? token with
  | none => rfl
  | some format => exact absurd (.wikiFile hf (hkind format)) h

/-! ## The rules agree -/

/-- What a listing offers, a read decodes, unless an earlier rule claims the token. -/
theorem Offers.decodes (h : ctx.Offers t id parent kind segment) (hread : ctx.intent = .read)
    (hr : ctx.repository.WellFormed) (hscratch : ctx.toWorkspace.Tidy)
    (hparent : ∀ page, parent = .page page → page.space.isSome = true)
    (hclaimed : ¬ctx.Claimed parent kind segment) : ctx.Decodes segment false parent kind := by
  have hplain : (∀ name, kind ≠ .scratch name) → ReservedName.isScratch segment = false := by
    intro hkind
    rw [Bool.eq_false_iff]
    exact fun hs => hclaimed (.scratch hs hkind)
  have hgroup : (ReservedName.isGroup segment = true → False) →
      ctx.namesGroup segment false = false := by
    intro hg
    rw [namesGroup_before_last, Bool.eq_false_iff]
    exact hg
  have hfiles : ∀ page, ctx.repository.files page =
      .ok (ctx.repository.store.filesOf page).keys := by
    intro page
    simp [Repository.files, Repository.asked, hr.working]
  have hcoherent := hr.reachable.coherent
  have hupkept := hr.reachable.upkept
  cases h with
  | view view =>
    refine .view (hplain (by simp)) ?_
    cases view <;> rfl
  | orphans => exact .view (hplain (by simp)) rfl
  | topLevel h => exact .topLevel (hplain (by simp)) rfl
  | @space space h =>
    have hknown := Store.mem_allSpaces.1 (mem_listed_asked.1 h).2
    exact .listed (hplain (by simp)) (Space.ofText_text (hr.spaces space hknown))
  | @orphan page h hview =>
    have hstored := Store.hasPage_of_mem_orphans hcoherent (mem_listed_asked.1 h).2
    obtain ⟨space, hspace⟩ := hcoherent.space_of_stored hstored
    exact .orphan (hplain (by simp)) (Page.ofText_text (hr.pages page hstored)) (by simp [hspace])
      hstored rfl
  | @nested space name h =>
    have hknown := Store.hasSpace_of_mem_spacesIn (mem_listed_asked.1 h).2
    refine .nested (hplain (by simp)) (hgroup fun hg => hclaimed (.groupForSpace hg)) ?_ ?_
    · rw [namesPage_of_read hread, Bool.eq_false_iff]
      exact fun hp => hclaimed (.page hp)
    · exact (namesSpace_before_last space).trans hknown
  | @own space _ _ h =>
    obtain ⟨page, hpage, rfl, rfl⟩ | ⟨g, _, rfl, rfl⟩ := grouped_cases h
    · obtain ⟨hstored, hin⟩ := Store.mem_pagesIn.1 (mem_listed_asked.1 (mem_visible.1 hpage).1).2
      obtain ⟨name, rfl⟩ := Page.exists_eq_inSpace hin
      refine .own (hplain (by simp)) (hgroup fun hg => hclaimed (.groupForPage hg)) ?_
      exact (namesPage_of_read hread space).trans hstored
    · refine .group g.isScratch_name ?_ g.ofToken_name
      exact namesGroup_before_last.trans g.isGroup_name
  | @holder space _ _ h =>
    obtain ⟨page, hpage, rfl, rfl⟩ | ⟨g, _, rfl, rfl⟩ := grouped_cases h
    · obtain ⟨hin, hfiled⟩ :=
        Store.mem_pagesWithFiles.1 (mem_listed_asked.1 (mem_visible.1 hpage).1).2
      obtain ⟨name, rfl⟩ := Page.exists_eq_inSpace hin
      refine .holder (hplain (by simp)) (hgroup fun hg => hclaimed (.groupForPage hg)) ?_
      exact hupkept.hasPage_of_files hfiled
    · refine .fileGroup g.isScratch_name ?_ g.ofToken_name
      exact namesGroup_before_last.trans g.isGroup_name
  | @grouped space g page h hview =>
    obtain ⟨_, hin, hholds⟩ := LetterGroup.mem_pagesBeginning_key.1 (mem_listed_asked.1 h).2
    obtain ⟨name, rfl⟩ := Page.exists_eq_inSpace hin
    exact .grouped (hplain (by simp)) hholds rfl
  | @groupedHolder space g page h _ hview =>
    obtain ⟨hin, hfiled⟩ := Store.mem_pagesWithFiles.1 (mem_listed_asked.1 h).2
    obtain ⟨name, rfl⟩ := Page.exists_eq_inSpace hin
    exact .groupedHolder (hplain (by simp)) (hupkept.hasPage_of_files hfiled) rfl
  | @child page found hpage h hcycle hview =>
    have hstored := Store.hasPage_of_mem_childrenOf hcoherent (mem_listed_asked.1 h).2
    obtain ⟨space, hspace⟩ := hcoherent.space_of_stored hstored
    obtain ⟨read, hread, hchild⟩ :=
      child_of_childToken (hparent page rfl) hspace (hr.pages found hstored)
    have hformat := ofFileName?_of_not_claimed (by simp) hclaimed
    have hfile : ctx.namesFile (ctx.repository.store.filesOf page).keys (childToken page found) false =
        false := by
      rw [namesFile_before_last, Bool.eq_false_iff]
      exact fun hf => hclaimed (.file (List.contains_iff_mem.1 hf))
    have hdecodes : ctx.Decodes (childToken page found) false (.page page)
        (.page (childOf page read)) :=
      .child (hplain (by simp)) hformat (hfiles page) hfile hread
    rwa [hchild] at hdecodes
  | @attachment page _ hpage h hview =>
    have hformat := ofFileName?_of_not_claimed (by simp) hclaimed
    refine .attachment (hplain (by simp)) hformat (hfiles page) ?_
    rw [namesFile_before_last]
    exact List.contains_iff_mem.2 (mem_listed_asked.1 h).2
  | wikiFile hpage format =>
    cases format <;> exact .wikiFile (by decide) rfl
  | scratch hdecode hpage hfiles h =>
    exact .scratch hdecode ((hscratch _ hfiles).namesIn h)

variable {t₂ : Tree} {id₂ : Nat}

/-- The entry of a node is known from its chain. -/
theorem entry_congr (hk : t₂.kind id₂ = t.kind id) (hd : t₂.describe id₂ = t.describe id) :
    t₂.entry id₂ = t.entry id := by
  have hpath : t₂.path id₂ = t.path id := by
    rw [Tree.path_eq, Tree.path_eq, hd]
  simp only [Tree.entry, hk, hpath]

/-- The path of a member is written from the tokens that lead to its directory and its own token. -/
theorem member_written {tokens : List String} (hl : ctx.lookup path = .ok (dir, t))
    (htokens : Path.tokens path = .ok tokens) (hm : ctx.members t dir = (ids, t'))
    (hchild : child ∈ ids) : t'.path child = Path.written (tokens ++ [(t'.node child).segment]) := by
  obtain ⟨ht, hdir⟩ := lookup_resolved hl
  have hlisted := members_listed ht.ordered hdir hm
  obtain ⟨kind, segment, _, _, hnode⟩ := members_sound ht.ordered hdir hm hchild
  refine Tree.path_eq_written (by simp) ?_
  rw [hlisted.ordered.describe_of_parent (congrArg Node.parent hnode),
    hlisted.kept.describe ht.ordered hlisted.ordered hdir, List.map_append, lookup_chain hl htokens]
  simp

/-- A member is listed right below its directory. -/
theorem member_path (hl : ctx.lookup path = .ok (dir, t)) (hm : ctx.members t dir = (ids, t'))
    (hchild : child ∈ ids) : t'.path child = Path.below (t.path dir) (t'.node child).segment := by
  obtain ⟨tokens, htokens, _⟩ := resolvePath_eq_ok_iff.1 (lookup_eq_ok_iff.1 hl)
  rw [member_written hl htokens hm hchild, lookup_path_cases hl htokens,
    Path.below_written (Path.valid_of_tokens htokens)]

/-- A member whose token is a valid name that no earlier rule claims is found at its path. -/
theorem member_again (hread : ctx.intent = .read) (hr : ctx.repository.WellFormed)
    (hscratch : ctx.toWorkspace.Tidy) (hl : ctx.lookup path = .ok (dir, t))
    (hm : ctx.members t dir = (ids, t')) (hchild : child ∈ ids)
    (hvalid : Path.isValidName (t'.node child).segment = true)
    (hclaimed : ¬ctx.Claimed (t.kind dir) (t'.kind child) (t'.node child).segment) :
    ∃ found t₂, ctx.lookup (t'.path child) = .ok (found, t₂) ∧ t₂.entry found = t'.entry child := by
  obtain ⟨tokens, htokens, hresolve⟩ := resolvePath_eq_ok_iff.1 (lookup_eq_ok_iff.1 hl)
  have henter := (resolve_of_read_eq_ok hread).1 hresolve
  obtain ⟨ht, _, hdir⟩ := enter_resolved .new (by decide) henter
  have hlisted := members_listed ht.ordered hdir hm
  obtain ⟨kind, segment, hoffer, hv, hnode⟩ := members_sound ht.ordered hdir hm hchild
  have hkind : t'.kind child = kind := congrArg Node.kind hnode
  rw [hkind, hnode] at hclaimed
  rw [hnode] at hvalid
  have hdecodes : ctx.Decodes segment false (t.kind dir) kind :=
    hoffer.decodes hread hr hscratch (fun page hk => ht.space_of_page hk) hclaimed
  -- The read adds the node right below the directory, where the listing has it among its siblings.
  obtain ⟨t₂, hinsert⟩ : ∃ t₂, t.insert dir kind segment = .ok (t.size, t₂) := by
    simp only [Tree.insert, hv]
    exact ⟨_, rfl⟩
  have hstep : ctx.step t dir segment true = .ok (t.size, t₂) := by
    rw [step_of_stored (by rw [hread]; rfl)]
    exact step_eq_ok.2 ⟨kind, hdecodes, hinsert⟩
  have hchain : t'.describe child = t.describe dir ++ [(kind, "/" ++ segment)] := by
    rw [hlisted.ordered.describe_of_parent (congrArg Node.parent hnode),
      hlisted.kept.describe ht.ordered hlisted.ordered hdir, hkind, hnode]
  have hread' : Path.tokens (t'.path child) = .ok (tokens ++ [segment]) := by
    rw [member_written hl htokens hm hchild, hnode]
    refine Path.tokens_written (by simp) fun n hn => ?_
    rcases List.mem_append.1 hn with hn | hn
    · exact Path.valid_of_tokens htokens n hn
    · exact List.mem_singleton.1 hn ▸ hvalid
  refine ⟨t.size, t₂, ?_, entry_congr ?_ ?_⟩
  · refine lookup_eq_ok_iff.2 (resolvePath_eq_ok_iff.2 ⟨_, hread', ?_⟩)
    exact resolve_concat_eq_ok.2 ⟨dir, t, henter, hstep⟩
  · exact (Tree.kind_insert_self hinsert).trans hkind.symm
  · rw [ht.ordered.describe_insert hdir hinsert, hchain]

theorem list_eq_ok {entries : List Entry} (h : ctx.list path = .ok entries) :
    ∃ dir t, ctx.lookup path = .ok (dir, t) ∧
      entries = (ctx.members t dir).1.map (ctx.members t dir).2.entry := by
  simp only [list] at h
  obtain ⟨⟨dir, t⟩, hl, h⟩ := Except.bind_eq_ok.1 h
  refine ⟨dir, t, hl, ?_⟩
  split at h
  · obtain ⟨_, hrefused, _⟩ := Except.bind_eq_ok.1 h
    cases hrefused
  · exact (Except.ok.inj h).symm

end Context

namespace Service

/-- The entries that a listing answers with are those that it makes in its context. -/
theorem list_of_handle {s : Service} {caller : Caller} {path : String} {entries : List Entry}
    (h : (s.handle caller (.list path)).1 = .ok (.entries entries)) :
    (s.context caller .read).list path = .ok entries := by
  rw [handle_list] at h
  obtain ⟨answer, hanswer, heq⟩ := Except.map_eq_ok.1 h
  rwa [Response.entries.inj heq] at hanswer

/-- Whatever a listing answers with is found again at its path, as the same entry, if the token it is
listed under is a valid name that no earlier rule of decoding claims. -/
theorem handle_list_again {s : Service} {caller : Caller} {path : String} {entries : List Entry}
    (hs : s.Serving) (hr : s.repository.WellFormed)
    (h : (s.handle caller (.list path)).1 = .ok (.entries entries)) :
    ∃ dir t ids t', (s.context caller .read).lookup path = .ok (dir, t) ∧
      (s.context caller .read).members t dir = (ids, t') ∧ entries = ids.map t'.entry ∧
      ∀ child ∈ ids, Path.isValidName (t'.node child).segment = true →
        ¬(s.context caller .read).Claimed (t.kind dir) (t'.kind child) (t'.node child).segment →
        ∃ found t₂, (s.context caller .read).lookup (t'.entry child).path = .ok (found, t₂) ∧
          t₂.entry found = t'.entry child := by
  obtain ⟨dir, t, hl, hentries⟩ := Context.list_eq_ok (list_of_handle h)
  refine ⟨dir, t, _, _, hl, rfl, hentries, fun child hchild hvalid hclaimed => ?_⟩
  exact Context.member_again rfl hr (context_tidy hs.tidy caller .read) hl rfl hchild hvalid hclaimed

/-- A child page with a dot in its name is listed under a token with a mark, and found again. -/
theorem handle_list_again_dotted :
    let a := Page.inSpace "A" (.topLevel "Main")
    let b := Page.inSpace "B.C" (.topLevel "Main")
    let store := ((Store.ofPages [a]).write (.save { Document.blank b with parent := some a })).2
    let s := Service.new (.ofStore store) .standard
    let caller : Caller := ⟨.anonymous, .allowAll⟩
    let entry : Entry := ⟨b.text, "/spaces/Main/A/B\\.C", .page, true, some (.page b)⟩
    ∃ found t, (s.context caller .read).lookup entry.path = .ok (found, t) ∧ t.entry found = entry := by
  intro a b store s caller entry
  let ctx := s.context caller .read
  let t : Tree := ⟨#[.root, ⟨.baseView .pages, "spaces", some 0, none⟩,
    ⟨.space (.topLevel "Main") .pages, "Main", some 1, none⟩, ⟨.page a, "A", some 2, none⟩]⟩
  let t' : Tree := ⟨t.nodes ++ #[⟨.page b, "B\\.C", some 3, none⟩,
    ⟨.wikiFile a .text, "wiki.txt", some 3, none⟩, ⟨.wikiFile a .xml, "wiki.xml", some 3, none⟩]⟩
  have hpages : s.repository.store.documents.keys = [a, b] := by decide
  have hspaces : s.repository.store.spaces.keys = [.topLevel "Main"] := by decide
  have hr : s.repository.WellFormed := by
    refine ⟨(Store.reachable_ofPages _).write _, rfl, fun p hp => ?_, fun space hspace => ?_⟩
    · have hmem : p ∈ s.repository.store.documents.keys := SortedMap.mem_keys.2 hp
      simp only [hpages, List.mem_cons, List.not_mem_nil, or_false] at hmem
      obtain rfl | rfl := hmem <;> decide
    · have hmem : space ∈ s.repository.store.spaces.keys := SortedMap.mem_keys.2 hspace
      obtain rfl := List.mem_singleton.1 (hspaces ▸ hmem)
      decide
  have hl : ctx.lookup "/spaces/Main/A" = .ok (3, t) := by
    dsimp only [ctx, s, store, caller, t, a, b]
    rfl
  have hm : ctx.members t 3 = ([4, 5, 6], t') := by
    dsimp only [ctx, s, store, caller, t', t, a, b]
    rfl
  have hok : (s.handle caller (.list "/spaces/Main/A")).1 =
      .ok (.entries ([4, 5, 6].map t'.entry)) := by
    dsimp only [s, store, caller, t', t, a, b]
    rfl
  have hentry : t'.entry 4 = entry := by
    dsimp only [t', t, entry, a, b]
    rfl
  have hclaimed : ¬ctx.Claimed (.page a) (.page b) "B\\.C" := by
    intro h
    cases h with
    | scratch h _ => exact absurd h (by decide)
    | wikiFile h _ => cases h
    | file h => exact absurd h (by decide)
  obtain ⟨dir, u, ids, u', hl', hm', _, hagain⟩ := handle_list_again (.new _ _) hr hok
  obtain ⟨rfl, rfl⟩ : 3 = dir ∧ t = u := Prod.mk.inj (Except.ok.inj (hl.symm.trans hl'))
  obtain ⟨rfl, rfl⟩ : [4, 5, 6] = ids ∧ t' = u' := Prod.mk.inj (hm.symm.trans hm')
  obtain ⟨found, t₂, hfound, hsame⟩ := hagain 4 (.head _) (by decide) hclaimed
  rw [hentry] at hfound hsame
  exact ⟨found, t₂, hfound, hsame⟩

end Service

end WikiMount
