import WikiMount.Proofs.Node.Listing
import WikiMount.Proofs.Reference.ReadBack
import WikiMount.Proofs.Storage.Queries

/-!
# Walking down the page hierarchy

The parents of pages are the users' and may loop. A listing leaves out every page that stands on the run
of pages leading up from the listed node, comparing texts, and of well-formed pages each has a text of its
own: so it leaves out these pages and no others. Whoever goes down from page to page therefore meets no
page twice, and every page after the first is stored, so the way ends.
-/

namespace WikiMount

theorem NodeKind.eq_page_of_page? {kind : NodeKind} {page : Page} (h : kind.page? = some page) :
    kind = .page page := by
  cases kind <;> cases h
  rfl

namespace Tree

/-- A page on the unbroken run of pages that leads up from a node, beginning with the node itself. -/
inductive OnRun (t : Tree) : Nat → Page → Prop
  | here {id : Nat} {page : Page} (hk : t.kind id = .page page) : OnRun t id page
  | above {id parent : Nat} {own page : Page} (hk : t.kind id = .page own)
      (hp : (t.node id).parent = some parent) (h : OnRun t parent page) : OnRun t id page

/-- The pages of the page nodes among some nodes. -/
def pagesAmong (t : Tree) (ids : List Nat) : List Page := ids.filterMap fun id => (t.kind id).page?

variable {t t' : Tree} {id : Nat} {page : Page} {text : String}

theorem OnRun.exists_page (h : t.OnRun id page) : ∃ own, t.kind id = .page own := by
  cases h with
  | here hk => exact ⟨page, hk⟩
  | above hk _ _ => exact ⟨_, hk⟩

/-- A tree that grows keeps the runs that it had. -/
theorem OnRun.grown (h : t.OnRun id page) (ho : t.Ordered) (hplaces : t.KeepsPlaces t')
    (hid : id < t.size) : t'.OnRun id page := by
  induction h with
  | here hk => exact .here ((hplaces.kind _ hid).trans hk)
  | above hk hp _ ih =>
    have hlt := ho _ _ hp
    exact .above ((hplaces.kind _ hid).trans hk) ((hplaces.parent _ hid).trans hp)
      (ih (Nat.lt_trans hlt hid))

/-- A tree that grows puts nothing on the runs that it had. -/
theorem OnRun.of_grown (h : t'.OnRun id page) (ho : t.Ordered) (hplaces : t.KeepsPlaces t')
    (hid : id < t.size) : t.OnRun id page := by
  induction h with
  | here hk => exact .here ((hplaces.kind _ hid).symm.trans hk)
  | above hk hp _ ih =>
    have hp' := (hplaces.parent _ hid).symm.trans hp
    exact .above ((hplaces.kind _ hid).symm.trans hk) hp' (ih (Nat.lt_trans (ho _ _ hp') hid))

theorem closesCycle_of_not_page (h : t.Ordered) (hk : (t.kind id).isPage = false) :
    t.closesCycle id text = false := by
  obtain ⟨rest, hrest⟩ := exists_ancestors_eq_cons h id
  simp [closesCycle, hrest, hk]

theorem closesCycle_of_no_parent (hk : t.kind id = .page page) (hp : (t.node id).parent = none) :
    t.closesCycle id text = (page.text == text) := by
  simp [closesCycle, ancestors_of_no_parent hp, hk, NodeKind.isPage, NodeKind.page?,
    NodeKind.displayName]

theorem Ordered.closesCycle_of_parent {parent : Nat} (h : t.Ordered) (hk : t.kind id = .page page)
    (hp : (t.node id).parent = some parent) :
    t.closesCycle id text = (page.text == text || t.closesCycle parent text) := by
  simp [closesCycle, h.ancestors_of_parent hp, hk, NodeKind.isPage, NodeKind.page?,
    NodeKind.displayName]

/-- What closes a cycle is the text of a page on the run above. -/
theorem Ordered.closesCycle_iff (h : t.Ordered) :
    t.closesCycle id text = true ↔ ∃ page, t.OnRun id page ∧ page.text = text := by
  induction id using Nat.strongRecOn with
  | ind id ih =>
    cases hown : (t.kind id).page? with
    | none =>
      rw [closesCycle_of_not_page h (by simp [NodeKind.isPage, hown])]
      refine iff_of_false (by simp) ?_
      rintro ⟨page, hrun, _⟩
      obtain ⟨own, hk⟩ := hrun.exists_page
      rw [hk] at hown
      cases hown
    | some own =>
      have hk : t.kind id = .page own := NodeKind.eq_page_of_page? hown
      cases hp : (t.node id).parent with
      | none =>
        rw [closesCycle_of_no_parent hk hp, beq_iff_eq]
        constructor
        · exact fun htext => ⟨own, .here hk, htext⟩
        · rintro ⟨page, hrun, htext⟩
          cases hrun with
          | here hk' => exact NodeKind.page.inj (hk.symm.trans hk') ▸ htext
          | above _ hp' _ => cases hp.symm.trans hp'
      | some parent =>
        rw [h.closesCycle_of_parent hk hp, Bool.or_eq_true, beq_iff_eq, ih parent (h id parent hp)]
        constructor
        · rintro (htext | ⟨page, hrun, htext⟩)
          · exact ⟨own, .here hk, htext⟩
          · exact ⟨page, .above hk hp hrun, htext⟩
        · rintro ⟨page, hrun, htext⟩
          cases hrun with
          | here hk' => exact .inl (NodeKind.page.inj (hk.symm.trans hk') ▸ htext)
          | above _ hp' hrun =>
            obtain rfl := Option.some.inj (hp.symm.trans hp')
            exact .inr ⟨page, hrun, htext⟩

theorem lt_size_of_page (h : t.kind id = .page page) : id < t.size :=
  lt_size_of_ne_root (by simp [h])

end Tree

namespace Context

variable {ctx : Context} {t t' : Tree} {id child : Nat} {ids : List Nat} {page found : Page}

/-! ## The pages of a listing -/

theorem filterMap_page?_scratchFiles (path : String) :
    (ctx.scratchFiles path).filterMap (fun c => c.1.page?) = [] := by
  refine List.filterMap_eq_nil_iff.2 fun c hc => ?_
  obtain ⟨_, _, name, _, rfl⟩ := mem_scratchFiles.1 hc
  rfl

/-- Of what is offered below a page only the child pages are pages. -/
theorem filterMap_page?_candidates (hk : t.kind id = .page page) (hview : ctx.canView page = true) :
    (ctx.candidates t id).filterMap (fun c => c.1.page?) =
      (ctx.childPages t id page).filterMap fun c => c.1.page? := by
  have hattachments : (ctx.attachments page).filterMap (fun c => c.1.page?) = [] := by
    refine List.filterMap_eq_nil_iff.2 fun c hc => ?_
    obtain ⟨a, _, rfl⟩ := List.mem_map.1 hc
    rfl
  have hwiki : (wikiFiles page).filterMap (fun c => c.1.page?) = [] := rfl
  simp only [candidates, stored?, hk, hview, if_pos, List.filterMap_append, hattachments, hwiki,
    filterMap_page?_scratchFiles, List.append_nil]

/-- The page nodes that a listing adds are the pages among its candidates, if these have spaces. -/
theorem pagesAmong_members_eq (h : t.Ordered) (hid : id < t.size) (hm : ctx.members t id = (ids, t'))
    (hspaces : ∀ found segment, ctx.Offers t id (t.kind id) (.page found) segment →
      ∃ space, found.space = some space) :
    t'.pagesAmong ids = (ctx.candidates t id).filterMap fun c => c.1.page? := by
  have hallowed : ∀ c ∈ ctx.candidates t id,
      (if (Tree.validate (t.kind id) c.1).isOk then c.1.page? else none) = c.1.page? := by
    intro c hc
    cases hpage : c.1.page? with
    | none => exact ite_self none
    | some found =>
      have hk : c.1 = .page found := NodeKind.eq_page_of_page? hpage
      obtain ⟨space, hspace⟩ := hspaces found c.2 (mem_candidates_iff.1 (hk ▸ hc))
      rw [hk, Tree.validate_page hspace]
      rfl
  calc t'.pagesAmong ids
      = (ids.map t'.node).filterMap (fun n => n.kind.page?) := by
        rw [List.filterMap_map]
        rfl
    _ = ((ctx.candidates t id).filter fun c => (Tree.validate (t.kind id) c.1).isOk).filterMap
          fun c => c.1.page? := by
        rw [members_nodes h hid hm, List.filterMap_map]
        rfl
    _ = _ := by
        rw [List.filterMap_filter]
        exact List.filterMap_congr hallowed

/-- The page nodes that a listing of a page adds are its children, in the order they are answered. -/
theorem pagesAmong_members (hs : ctx.repository.store.Coherent) (h : t.Ordered)
    (hk : t.kind id = .page page) (hview : ctx.canView page = true)
    (hm : ctx.members t id = (ids, t')) :
    t'.pagesAmong ids = (listed (ctx.repository.childrenOf page)).filter fun found =>
      !t.closesCycle id found.text && ctx.canView found := by
  have hspaces : ∀ found segment, ctx.Offers t id (t.kind id) (.page found) segment →
      ∃ space, found.space = some space := by
    intro found segment ho
    rw [hk] at ho
    cases ho with
    | child _ hlisted _ _ =>
      exact hs.space_of_stored (Store.hasPage_of_mem_childrenOf hs (mem_listed_asked.1 hlisted).2)
  rw [pagesAmong_members_eq h (Tree.lt_size_of_page hk) hm hspaces,
    filterMap_page?_candidates hk hview, childPages, List.filterMap_map]
  exact List.filterMap_some

/-! ## Going down -/

/-- Going down from page to page: the node that has been reached and the pages on the way, the latest
first. Meanwhile the tree may grow in any other way. -/
inductive Descent (ctx : Context) : Tree → Nat → List Page → Prop
  | start {t : Tree} {id : Nat} {page : Page} (ht : t.Built) (hk : t.kind id = .page page) :
      Descent ctx t id [page]
  | down {t t' : Tree} {id child : Nat} {ids : List Nat} {page : Page} {pages : List Page}
      (h : Descent ctx t id pages) (hm : ctx.members t id = (ids, t')) (hchild : child ∈ ids)
      (hk : t'.kind child = .page page) : Descent ctx t' child (page :: pages)
  | meanwhile {t t' : Tree} {id : Nat} {pages : List Page} (h : Descent ctx t id pages)
      (ht : t.Grown t') : Descent ctx t' id pages

variable {pages : List Page}

/-- All pages on a way down are on the run that leads up from its end, and none comes twice. -/
structure Traced (ctx : Context) (t : Tree) (id : Nat) (pages : List Page) : Prop where
  ordered : t.Ordered
  lt : id < t.size
  onRun : ∀ page ∈ pages, t.OnRun id page
  nodup : pages.Nodup
  /-- Only the page that the way began at may not be stored. -/
  stored : ∃ visited first, pages = visited ++ [first] ∧
    ∀ page ∈ visited, ctx.repository.store.hasPage page = true

/-- A page below a page is stored and not on the run above. -/
theorem member_of_page (hs : ctx.repository.store.Coherent) (h : t.Ordered) {own : Page}
    (hown : t.kind id = .page own) (hm : ctx.members t id = (ids, t')) (hchild : child ∈ ids)
    (hk : t'.kind child = .page page) :
    ctx.repository.store.hasPage page = true ∧ ¬t.OnRun id page ∧ (t'.node child).parent = some id := by
  obtain ⟨kind, segment, ho, _, hnode⟩ := members_sound h (Tree.lt_size_of_page hown) hm hchild
  obtain rfl : kind = .page page := (congrArg Node.kind hnode).symm.trans hk
  rw [hown] at ho
  cases ho with
  | child _ hlisted hcycle _ =>
    refine ⟨Store.hasPage_of_mem_childrenOf hs (mem_listed_asked.1 hlisted).2, fun hrun => ?_,
      congrArg Node.parent hnode⟩
    rw [h.closesCycle_iff.2 ⟨page, hrun, rfl⟩] at hcycle
    cases hcycle

theorem Traced.down (hs : ctx.repository.store.Coherent) (h : ctx.Traced t id pages)
    (hm : ctx.members t id = (ids, t')) (hchild : child ∈ ids) (hk : t'.kind child = .page page) :
    ctx.Traced t' child (page :: pages) := by
  obtain ⟨visited, first, rfl, hvisited⟩ := h.stored
  obtain ⟨own, hown⟩ := (h.onRun first (by simp)).exists_page
  obtain ⟨hstored, hnew, hparent⟩ := member_of_page hs h.ordered hown hm hchild hk
  have hlisted := members_listed h.ordered h.lt hm
  refine ⟨hlisted.ordered, (hlisted.sound child hchild).1, fun other hother => ?_, ?_,
    page :: visited, first, rfl, List.forall_mem_cons.2 ⟨hstored, hvisited⟩⟩
  · rcases List.mem_cons.1 hother with rfl | hother
    · exact .here hk
    · exact .above hk hparent ((h.onRun other hother).grown h.ordered hlisted.kept.keepsPlaces h.lt)
  · exact List.nodup_cons.2 ⟨fun hmem => hnew (h.onRun page hmem), h.nodup⟩

theorem Descent.traced (hs : ctx.repository.store.Coherent) (h : ctx.Descent t id pages) :
    ctx.Traced t id pages := by
  induction h with
  | @start t id page ht hk =>
    refine ⟨ht.ordered, Tree.lt_size_of_page hk, fun other hother => ?_, List.pairwise_singleton _ page,
      [], page, rfl, by simp⟩
    exact List.mem_singleton.1 hother ▸ .here hk
  | down _ hm hchild hk ih => exact ih.down hs hm hchild hk
  | meanwhile _ ht ih =>
    have hplaces := ht.keepsPlaces
    exact ⟨ht.ordered ih.ordered, Nat.lt_of_lt_of_le ih.lt hplaces.size_le,
      fun page hpage => (ih.onRun page hpage).grown ih.ordered hplaces ih.lt, ih.nodup, ih.stored⟩

/-- A way down meets stored pages once each, after the page it began at. -/
theorem Traced.length_le (h : ctx.Traced t id pages) :
    pages.length ≤ ctx.repository.store.documents.size + 1 := by
  obtain ⟨visited, first, rfl, hvisited⟩ := h.stored
  have hkeys : visited ⊆ ctx.repository.store.documents.keys := fun page hpage =>
    SortedMap.mem_keys.2 (hvisited page hpage)
  have hlength := (List.nodup_append.1 h.nodup).1.length_le_of_subset hkeys
  simpa [SortedMap.keys, SortedMap.size] using hlength

/-- Below a page the children that may be viewed are listed once each, but for those that are on the run
of pages leading up from the listed node, so no way down meets a page twice and every way ends. -/
theorem children_listed (hs : ctx.repository.store.Reachable) (hbroken : ctx.repository.broken = [])
    (hwell : ∀ page, ctx.repository.store.hasPage page = true → page.isWellFormed = true) :
    (∀ t id page ids t', t.Built → t.kind id = .page page →
      ctx.caller.policy.grants .view (.page page) = true → ctx.members t id = (ids, t') →
        (t'.pagesAmong ids).Nodup ∧ ∀ child, child ∈ t'.pagesAmong ids ↔
          (∃ d, ctx.repository.store.documents.get? child = some d ∧ d.parent = some page) ∧
            ctx.caller.policy.grants .view (.page child) = true ∧ ¬t.OnRun id child) ∧
      ∀ t id pages, ctx.Descent t id pages →
        pages.Nodup ∧ pages.length ≤ ctx.repository.store.documents.size + 1 := by
  refine ⟨fun t id page ids t' ht hk hview hm => ?_, fun t id pages h => ?_⟩
  · have hlisted : listed (ctx.repository.childrenOf page) = ctx.repository.store.childrenOf page := by
      simp [Repository.childrenOf, Repository.asked, hbroken, listed]
    rw [pagesAmong_members hs.coherent ht.ordered hk hview hm, hlisted]
    refine ⟨(Store.childrenOf_nodup hs.coherent page).filter _, fun child => ?_⟩
    rw [List.mem_filter, Store.mem_childrenOf hs.coherent, Bool.and_eq_true, Bool.not_eq_true']
    refine and_congr_right fun hparent => ?_
    obtain ⟨d, hd, _⟩ := hparent
    have hchild : child.isWellFormed = true := hwell child (by rw [Store.hasPage_eq, hd]; rfl)
    have hcycle : t.closesCycle id child.text = false ↔ ¬t.OnRun id child := by
      rw [← Bool.not_eq_true, ht.ordered.closesCycle_iff]
      refine not_congr ⟨?_, ?_⟩
      · rintro ⟨other, hrun, htext⟩
        exact Page.eq_of_text_eq hchild htext ▸ hrun
      · exact fun hrun => ⟨child, hrun, rfl⟩
    rw [hcycle, and_comm]
    exact Iff.rfl
  · have htraced := h.traced hs.coherent
    exact ⟨htraced.nodup, htraced.length_le⟩

/-- Of two pages that are each other's parent the one is listed below the other, and nothing below
that. -/
theorem children_listed_in_cycle :
    let a := Page.inSpace "A" (.topLevel "Main")
    let b := Page.inSpace "B" (.topLevel "Main")
    let half := (Store.empty.write (.save { Document.blank a with parent := some b })).2
    let store := (half.write (.save { Document.blank b with parent := some a })).2
    let ctx : Context := ⟨⟨.ofStore store, none⟩, ⟨.anonymous, .allowAll⟩, .standard, .read⟩
    ∃ t id child ids t', ctx.lookup "/spaces/Main/A" = .ok (id, t) ∧
      ctx.members t id = (ids, t') ∧ b ∈ t'.pagesAmong ids ∧ ctx.Descent t' child [b, a] ∧
      (∀ below t'', ctx.members t' child = (below, t'') → a ∉ t''.pagesAmong below) ∧
      ∀ id pages, ctx.Descent t' id pages → pages.length ≤ 3 := by
  intro a b half store ctx
  let t : Tree := ⟨#[.root, ⟨.baseView .pages, "spaces", some 0, none⟩,
    ⟨.space (.topLevel "Main") .pages, "Main", some 1, none⟩, ⟨.page a, "A", some 2, none⟩]⟩
  let t' : Tree := ⟨t.nodes ++ #[⟨.page b, "B", some 3, none⟩,
    ⟨.wikiFile a .text, "wiki.txt", some 3, none⟩, ⟨.wikiFile a .xml, "wiki.xml", some 3, none⟩]⟩
  have hs : ctx.repository.store.Reachable := (Store.Reachable.empty.write _).write _
  have hkeys : store.documents.keys = [a, b] := by decide
  have hsize : store.documents.size = 2 := by decide
  have hwell : ∀ p, ctx.repository.store.hasPage p = true → p.isWellFormed = true := by
    intro p hp
    have hmem : p ∈ store.documents.keys := SortedMap.mem_keys.2 hp
    simp only [hkeys, List.mem_cons, List.not_mem_nil, or_false] at hmem
    obtain rfl | rfl := hmem <;> decide
  have hl : ctx.lookup "/spaces/Main/A" = .ok (3, t) := by
    dsimp only [ctx, store, half, t, a, b]
    rfl
  have hm : ctx.members t 3 = ([4, 5, 6], t') := by
    dsimp only [ctx, store, half, t', t, a, b]
    rfl
  have hk : t.kind 3 = .page a := by decide
  have hk' : t'.kind 4 = .page b := by decide
  have hparent : (t'.node 4).parent = some 3 := by decide
  have ht : t.Built := lookup_built hl
  have ht' : t'.Built := by
    have hgrown : t.Grown (ctx.members t 3).2 := Tree.insertAll_grown (by decide)
    rw [hm] at hgrown
    exact ht.trans hgrown
  have ha : t'.OnRun 4 a := .above hk' hparent (.here (by decide))
  have hview : ∀ p, ctx.caller.policy.grants .view (.page p) = true := fun _ => rfl
  obtain ⟨hpages, hdown⟩ := children_listed hs rfl hwell
  refine ⟨t, 3, 4, _, t', hl, hm, by decide, .down (.start ht hk) hm (by decide) hk',
    fun below t'' hm' hmem => ?_, fun id pages h => ?_⟩
  · exact (((hpages t' 4 b below t'' ht' hk' (hview b) hm').2 a).1 hmem).2.2 ha
  · have hlength : pages.length ≤ store.documents.size + 1 := (hdown t' id pages h).2
    rwa [hsize] at hlength

end Context

end WikiMount
