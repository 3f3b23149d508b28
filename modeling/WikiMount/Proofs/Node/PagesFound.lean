import Mathlib.Data.List.Induction
import WikiMount.Proofs.Node.Listing
import WikiMount.Proofs.Reference.ReadBack
import WikiMount.Proofs.Storage.Queries
import WikiMount.Proofs.Storage.Upkeep
import WikiMount.Proofs.Text.LetterGroups

/-!
# The pages that a view leads to

Whoever lists the wiki root, then a base view, and then every space and letter group on the way meets the
pages that the policy lets them view and no others: all stored pages in one view, the pages that hold a
file in the other. No page is lost on the way, because the space of a stored page is known with all
spaces around it, and because the group that a page is put into holds the page.
-/

namespace WikiMount

/-- The nodes that are listed on the way through a base view. -/
def NodeKind.leadsThrough (view : View) : NodeKind → Bool
  | .root => true
  | .baseView v => v == view
  | .space _ v => v == view
  | .pageGroup _ _ => view == .pages
  | .attachmentGroup _ _ => view == .attachments
  | _ => false

/-- What a page needs to be in a view, whoever looks: to be stored, or to hold a file. -/
def Store.Shows (s : Store) : View → Page → Prop
  | .pages, page => s.hasPage page = true
  | .attachments, page => (s.filesOf page).isEmpty = false

namespace Store

variable {s : Store} {p : Page}

/-- A page that is shown in a view is stored. -/
theorem Upkept.hasPage_of_shows (h : s.Upkept) {view : View} (hp : s.Shows view p) :
    s.hasPage p = true := by
  cases view with
  | pages => exact hp
  | attachments => exact h.hasPage_of_files hp

end Store

namespace Context

variable {ctx : Context} {view : View} {t t' : Tree} {id : Nat} {met : List Nat} {page : Page}

/-- A page of a list is offered itself or in a group that holds it. -/
theorem mem_grouped {asGroup : LetterGroup → NodeKind} {pages : List Page} (h : page ∈ pages)
    (hname : page.name ≠ "") : .short page ∈ ctx.grouped asGroup pages ∨
      ∃ g, g.holds page.name = true ∧ .named (asGroup g) ∈ ctx.grouped asGroup pages := by
  simp only [grouped]
  split
  · exact .inl (List.mem_map.2 ⟨page, h, rfl⟩)
  next hletters =>
    obtain ⟨g, hkey⟩ := LetterGroup.exists_key hname (Nat.pos_of_ne_zero hletters)
    have hgroup : g ∈ groups (pages.map Page.name) (ctx.config.grouping.letters pages.length) :=
      LetterGroup.mem_groups.2 ⟨page.name, List.mem_map.2 ⟨page, h, rfl⟩, hkey.symm⟩
    exact .inr ⟨g, LetterGroup.holds_of_key hkey, List.mem_map.2 ⟨g, hgroup, rfl⟩⟩

theorem page_of_mem_grouped {asGroup : LetterGroup → NodeKind} {pages : List Page} {segment : String}
    (hgroup : ∀ g, asGroup g ≠ .page page) (h : (.page page, segment) ∈ ctx.grouped asGroup pages) :
    page ∈ pages := by
  obtain ⟨found, hfound, hkind, _⟩ | ⟨g, _, hkind, _⟩ := grouped_cases h
  · exact NodeKind.page.inj hkind ▸ hfound
  · exact absurd hkind.symm (hgroup g)

/-! ## Walks -/

/-- The tree and the nodes met after listing, from the wiki root on, nodes that lead through a view. -/
inductive Walk (ctx : Context) (view : View) : Tree → List Nat → Prop
  | start : Walk ctx view .new [0]
  | list {t t' : Tree} {met ids : List Nat} {id : Nat} (h : Walk ctx view t met) (hid : id ∈ met)
      (hopen : (t.kind id).leadsThrough view = true) (hm : ctx.members t id = (ids, t')) :
      Walk ctx view t' (met ++ ids)

/-- A node of this kind is met on a walk through the view. -/
def Found (ctx : Context) (view : View) (kind : NodeKind) : Prop :=
  ∃ t met id, ctx.Walk view t met ∧ id ∈ met ∧ t.kind id = kind

theorem Walk.placed (h : ctx.Walk view t met) : t.Ordered ∧ ∀ id ∈ met, id < t.size := by
  induction h with
  | start => exact ⟨Tree.Resolved.new.ordered, by decide⟩
  | list h hid hopen hm ih =>
    have hlisted := members_listed ih.1 (ih.2 _ hid) hm
    refine ⟨hlisted.ordered, fun other hother => ?_⟩
    rcases List.mem_append.1 hother with hother | hother
    · exact Nat.lt_of_lt_of_le (ih.2 other hother) hlisted.kept.size_le
    · exact (hlisted.sound other hother).1

theorem Found.root : ctx.Found view .root := ⟨.new, [0], 0, .start, .head _, rfl⟩

/-- What is offered below a node that is found is found. -/
theorem Found.member {parent kind : NodeKind} {segment : String} (h : ctx.Found view parent)
    (hopen : parent.leadsThrough view = true) (ho : ∀ t id, ctx.Offers t id parent kind segment)
    (hv : Tree.validate parent kind = .ok ()) : ctx.Found view kind := by
  obtain ⟨t, met, id, hwalk, hid, rfl⟩ := h
  obtain ⟨hordered, hlt⟩ := hwalk.placed
  obtain ⟨child, hchild, hnode⟩ := members_complete hordered (hlt id hid) rfl (ho t id) hv
  refine ⟨_, _, child, hwalk.list hid hopen rfl, List.mem_append.2 (.inr hchild), ?_⟩
  exact congrArg Node.kind hnode

/-! ## Only visible pages are found -/

/-- A page that is offered on the way through a view is shown in it and may be viewed. -/
theorem Offers.shows {parent : NodeKind} {segment : String}
    (hopen : parent.leadsThrough view = true) (h : ctx.Offers t id parent (.page page) segment) :
    ctx.repository.store.Shows view page ∧ ctx.canView page = true := by
  cases h with
  | orphan _ _ => cases hopen
  | own h =>
    obtain rfl : .pages = view := by simpa [NodeKind.leadsThrough] using hopen
    obtain ⟨hlisted, hview⟩ := mem_visible.1 (page_of_mem_grouped (by simp) h)
    exact ⟨(Store.mem_pagesIn.1 (mem_listed_asked.1 hlisted).2).1, hview⟩
  | holder h =>
    obtain rfl : .attachments = view := by simpa [NodeKind.leadsThrough] using hopen
    obtain ⟨hlisted, hview⟩ := mem_visible.1 (page_of_mem_grouped (by simp) h)
    exact ⟨(Store.mem_pagesWithFiles.1 (mem_listed_asked.1 hlisted).2).2, hview⟩
  | grouped h hview =>
    obtain rfl : view = .pages := by simpa [NodeKind.leadsThrough] using hopen
    exact ⟨(Store.mem_pagesBeginning.1 (mem_listed_asked.1 h).2).1, hview⟩
  | groupedHolder h _ hview =>
    obtain rfl : view = .attachments := by simpa [NodeKind.leadsThrough] using hopen
    exact ⟨(Store.mem_pagesWithFiles.1 (mem_listed_asked.1 h).2).2, hview⟩
  | child _ _ _ _ => cases hopen

theorem Walk.shows (h : ctx.Walk view t met) (hid : id ∈ met) (hk : t.kind id = .page page) :
    ctx.repository.store.Shows view page ∧ ctx.canView page = true := by
  induction h generalizing id with
  | start =>
    obtain rfl := List.mem_singleton.1 hid
    cases hk
  | list h hmet hopen hm ih =>
    obtain ⟨hordered, hlt⟩ := h.placed
    rcases List.mem_append.1 hid with hid | hid
    · have hnode := (members_listed hordered (hlt _ hmet) hm).kept.node id (hlt id hid)
      exact ih hid ((congrArg Node.kind hnode).symm.trans hk)
    · obtain ⟨kind, segment, ho, _, hnode⟩ := members_sound hordered (hlt _ hmet) hm hid
      obtain rfl : kind = .page page := (congrArg Node.kind hnode).symm.trans hk
      exact ho.shows hopen

/-! ## Every visible page is found -/

theorem Found.baseView (view : View) : ctx.Found view (.baseView view) :=
  Found.root.member rfl (fun _ _ => .view view) rfl

/-- A space that is known is found, below the spaces around it. -/
theorem Found.space (hs : ctx.repository.store.Upkept) (hbroken : ctx.repository.broken = [])
    {segments : List String} (hspace : ctx.repository.store.hasSpace ⟨segments⟩ = true)
    (hwell : (Space.mk segments).isWellFormed = true) :
    ctx.Found .pages (.space ⟨segments⟩ .pages) := by
  induction segments using List.reverseRecOn with
  | nil => cases hwell
  | append_singleton around name ih =>
    have hv : ∀ parent, Tree.validate parent (.space ⟨around ++ [name]⟩ .pages) = .ok () := by
      intro parent
      simp [Tree.validate, hwell]
    by_cases htop : around = []
    · subst htop
      have hmem : name ∈ listed ctx.repository.topLevelSpaces :=
        mem_listed hbroken (Store.mem_topLevelSpaces.2 hspace)
      exact (Found.baseView .pages).member rfl (fun _ _ => .topLevel hmem) (hv _)
    · have hparent : (Space.mk (around ++ [name])).parent = some ⟨around⟩ :=
        Space.parent_child ⟨around⟩ name htop
      have haround : (Space.mk around).isWellFormed = true := by
        obtain ⟨_, hnames⟩ := Space.isWellFormed_iff.1 hwell
        exact Space.isWellFormed_iff.2 ⟨htop, fun n hn => hnames n (List.mem_append.2 (.inl hn))⟩
      have hmem : name ∈ listed (ctx.repository.spacesIn ⟨around⟩) :=
        mem_listed hbroken (Store.mem_spacesIn htop hspace)
      have hfound := ih (hs.enclosed _ _ hspace hparent) haround
      exact hfound.member rfl (fun _ _ => .nested hmem) (hv _)

theorem found_page (hs : ctx.repository.store.Reachable) (hbroken : ctx.repository.broken = [])
    (hwell : page.isWellFormed = true) (hshows : ctx.repository.store.Shows view page)
    (hview : ctx.canView page = true) : ctx.Found view (.page page) := by
  have hstored := hs.upkept.hasPage_of_shows hshows
  obtain ⟨d, hd⟩ := Option.isSome_iff_exists.1 hstored
  obtain ⟨space, hspace, hknown⟩ := hs.coherent.known page d hd
  have hin : page.isIn space = true := by simp [Page.isIn, hspace]
  obtain ⟨hname, hspaceWell⟩ : page.name ≠ "" ∧ space.isWellFormed = true := by
    simpa [Page.isWellFormed, hspace] using hwell
  have hv : ∀ parent, Tree.validate parent (.page page) = .ok () := Tree.validate_page hspace
  cases view with
  | pages =>
    have hdir := Found.space hs.upkept hbroken hknown hspaceWell
    have hpage : page ∈ ctx.visible (listed (ctx.repository.pagesIn space)) :=
      mem_visible.2 ⟨mem_listed hbroken (Store.mem_pagesIn.2 ⟨hstored, hin⟩), hview⟩
    rcases mem_grouped hpage hname with h | ⟨g, hg, h⟩
    · exact hdir.member rfl (fun _ _ => .own h) (hv _)
    · have hgroup : ctx.Found .pages (.pageGroup space g) :=
        hdir.member rfl (fun _ _ => .own h) (by simp [Tree.validate])
      have hbegins : page ∈ listed (ctx.repository.pagesBeginning space g.key) :=
        mem_listed hbroken (LetterGroup.mem_pagesBeginning_key.2 ⟨hstored, hin, hg⟩)
      exact hgroup.member rfl (fun _ _ => .grouped hbegins hview) (hv _)
  | attachments =>
    have hallSpaces : space ∈ listed ctx.repository.allSpaces :=
      mem_listed hbroken (Store.mem_allSpaces.2 hknown)
    have hdir : ctx.Found .attachments (.space space .attachments) :=
      (Found.baseView .attachments).member rfl (fun _ _ => .space hallSpaces)
        (by simp [Tree.validate, hspaceWell])
    have hholds : page ∈ listed (ctx.repository.pagesWithFiles space) :=
      mem_listed hbroken (Store.mem_pagesWithFiles.2 ⟨hin, hshows⟩)
    rcases mem_grouped (mem_visible.2 ⟨hholds, hview⟩) hname with h | ⟨g, hg, h⟩
    · exact hdir.member rfl (fun _ _ => .holder h) (hv _)
    · have hgroup : ctx.Found .attachments (.attachmentGroup space g) :=
        hdir.member rfl (fun _ _ => .holder h) (by simp [Tree.validate])
      exact hgroup.member rfl (fun _ _ => .groupedHolder hholds hg hview) (hv _)

/-- Each view leads to the pages that it shows and the policy lets the caller view, and to no others,
however pages are grouped. -/
theorem found_page_iff (hs : ctx.repository.store.Reachable) (hbroken : ctx.repository.broken = [])
    (hwell : ∀ page, ctx.repository.store.hasPage page = true → page.isWellFormed = true)
    (view : View) (page : Page) :
    ctx.Found view (.page page) ↔ ctx.repository.store.Shows view page ∧
      ctx.caller.policy.grants .view (.page page) = true := by
  constructor
  · rintro ⟨t, met, id, hwalk, hid, hk⟩
    exact hwalk.shows hid hk
  · rintro ⟨hshows, hview⟩
    exact found_page hs hbroken (hwell page (hs.upkept.hasPage_of_shows hshows)) hshows hview

/-- A page whose name begins with a letter of two uppercase letters is found in its group. -/
theorem found_page_in_group :
    let page := Page.inSpace "ßa" ((Space.topLevel "A").child "B")
    let ctx : Context := ⟨⟨.ofStore (.ofPages [page]), none⟩, ⟨.anonymous, .allowAll⟩,
      { Config.standard with grouping := ⟨0, 0, 9⟩ }, .read⟩
    LetterGroup.bucketKey page.name 2 = "SSA" ∧ ctx.Found .pages (.page page) := by
  intro page ctx
  have hwell : ∀ p, ctx.repository.store.hasPage p = true → p.isWellFormed = true := by
    intro p hp
    have hkeys : ctx.repository.store.documents.keys = [page] := rfl
    have hmem : p ∈ ctx.repository.store.documents.keys := SortedMap.mem_keys.2 hp
    rw [hkeys, List.mem_singleton] at hmem
    rw [hmem]
    rfl
  have hstored : ctx.repository.store.hasPage page = true := by decide
  have hfound : ctx.Found .pages (.page page) :=
    (found_page_iff (Store.reachable_ofPages _) rfl hwell .pages page).2 ⟨hstored, rfl⟩
  exact ⟨by decide, hfound⟩

end Context

end WikiMount
