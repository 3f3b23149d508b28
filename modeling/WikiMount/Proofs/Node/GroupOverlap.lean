import WikiMount.Proofs.Node.PageHierarchy
import WikiMount.Proofs.Node.PagesFound

/-!
# Where letter groups overlap

A page is put into the group of the first letters of its name, but a group lists all pages whose uppercase
name begins with its key. A short name, or a letter of several uppercase letters, makes a key of another
length than most, and then two groups may list one page. They do exactly if the key of one begins with the
key of the other: the page that the longer key was made of is then in both.
-/

namespace WikiMount

/-- A group holds what a group with a longer key holds. -/
theorem LetterGroup.holds_of_prefix {g other : LetterGroup} {name : String}
    (hkeys : g.key.toList <+: other.key.toList) (h : other.holds name = true) :
    g.holds name = true := by
  rw [holds, List.isPrefixOf_iff_prefix] at h ⊢
  exact hkeys.trans h

/-- The keys of two groups that hold one page are comparable. -/
theorem LetterGroup.comparable_of_holds {g other : LetterGroup} {name : String}
    (h : g.holds name = true) (hother : other.holds name = true) :
    g.key.toList <+: other.key.toList ∨ other.key.toList <+: g.key.toList := by
  rw [holds, List.isPrefixOf_iff_prefix] at h hother
  exact List.prefix_or_prefix_of_prefix h hother

namespace Context

variable {ctx : Context} {t t' u u' : Tree} {id dir a b : Nat} {ids : List Nat} {page : Page}
  {space : Space} {view : View} {g g' : LetterGroup} {segment : String}

/-- The pages that are listed below a node. -/
def pagesBelow (ctx : Context) (t : Tree) (id : Nat) : List Page :=
  let (ids, t') := ctx.members t id
  t'.pagesAmong ids

/-- A page is listed below a node if a rule offers it there and it has a space. -/
theorem mem_pagesBelow (h : t.Ordered) (hid : id < t.size) : page ∈ ctx.pagesBelow t id ↔
    (∃ segment, ctx.Offers t id (t.kind id) (.page page) segment) ∧
      Tree.validate (t.kind id) (.page page) = .ok () := by
  simp only [pagesBelow, Tree.pagesAmong, List.mem_filterMap]
  constructor
  · rintro ⟨child, hchild, hpage⟩
    obtain ⟨kind, segment, ho, hv, hnode⟩ := members_sound h hid rfl hchild
    have hkind : kind = .page page :=
      (congrArg Node.kind hnode).symm.trans (NodeKind.eq_page_of_page? hpage)
    subst hkind
    exact ⟨⟨segment, ho⟩, hv⟩
  · rintro ⟨⟨segment, ho⟩, hv⟩
    obtain ⟨child, hchild, hnode⟩ := members_complete h hid rfl ho hv
    exact ⟨child, hchild, congrArg (fun n : Node => n.kind.page?) hnode⟩

/-- A letter group of a view lists the pages of its space that it holds, as far as they are shown in the
view and may be viewed. -/
theorem mem_pagesBelow_group (hbroken : ctx.repository.broken = []) (h : t.Ordered)
    (hk : t.kind id = view.groupKind space g) : page ∈ ctx.pagesBelow t id ↔
      ctx.repository.store.Shows view page ∧ page.isIn space = true ∧ g.holds page.name = true ∧
        ctx.canView page = true := by
  have hid : id < t.size := Tree.lt_size_of_ne_root (by cases view <;> simp [hk, View.groupKind])
  rw [mem_pagesBelow h hid, hk]
  constructor
  · rintro ⟨⟨segment, ho⟩, _⟩
    cases view with
    | pages =>
      cases ho with
      | grouped hpage hview =>
        obtain ⟨hstored, hin, hg⟩ :=
          LetterGroup.mem_pagesBeginning_key.1 (mem_listed_asked.1 hpage).2
        exact ⟨hstored, hin, hg, hview⟩
    | attachments =>
      cases ho with
      | groupedHolder hpage hg hview =>
        obtain ⟨hin, hfiles⟩ := Store.mem_pagesWithFiles.1 (mem_listed_asked.1 hpage).2
        exact ⟨hfiles, hin, hg, hview⟩
  · rintro ⟨hshows, hin, hg, hview⟩
    have hspace : page.space = some space := by simpa [Page.isIn] using hin
    refine ⟨⟨page.name, ?_⟩, Tree.validate_page hspace _⟩
    cases view with
    | pages =>
      have hpage := LetterGroup.mem_pagesBeginning_key.2 ⟨hshows, hin, hg⟩
      exact .grouped (mem_listed hbroken hpage) hview
    | attachments =>
      have hpage := Store.mem_pagesWithFiles.2 ⟨hin, hshows⟩
      exact .groupedHolder (mem_listed hbroken hpage) hg hview

/-- The pages that a directory of a space shows, grouped or not, before the policy is asked. -/
def shownIn (ctx : Context) (space : Space) : View → List Page
  | .pages => listed (ctx.repository.pagesIn space)
  | .attachments => listed (ctx.repository.pagesWithFiles space)

theorem mem_shownIn (hbroken : ctx.repository.broken = []) : page ∈ ctx.shownIn space view ↔
    ctx.repository.store.Shows view page ∧ page.isIn space = true := by
  have hanswered : ∀ m l, page ∈ listed (ctx.repository.asked m (.ok l)) ↔ page ∈ l := fun m l => by
    rw [listed_asked hbroken]
  cases view with
  | pages => exact (hanswered _ _).trans Store.mem_pagesIn
  | attachments => exact ((hanswered _ _).trans Store.mem_pagesWithFiles).trans and_comm

/-- A letter group that is offered in a directory is made of the pages that the directory shows. -/
theorem Offers.made (h : ctx.Offers t dir (.space space view) (view.groupKind space g) segment) :
    ∃ letters, g ∈ groups ((ctx.visible (ctx.shownIn space view)).map Page.name) letters := by
  have hgrouped : (view.groupKind space g, segment) ∈
      ctx.grouped (view.groupKind space) (ctx.visible (ctx.shownIn space view)) := by
    cases view with
    | pages =>
      cases h with
      | own h => exact h
    | attachments =>
      cases h with
      | holder h => exact h
  obtain ⟨_, _, hkind, _⟩ | ⟨g', hmade, hkind, _⟩ := grouped_cases hgrouped
  · cases view <;> cases hkind
  · have hsame : g = g' := by cases view <;> cases hkind <;> rfl
    exact hsame ▸ hmade

/-- A letter group that a directory lists holds a page that it lists itself. -/
theorem exists_pageBelow_group (hbroken : ctx.repository.broken = []) (ht : t.Ordered)
    (hk : t.kind dir = .space space view) (hm : ctx.members t dir = (ids, t')) (ha : a ∈ ids)
    (hg : t'.kind a = view.groupKind space g) (hu : t'.Grown u) :
    ∃ page, page ∈ ctx.pagesBelow u a := by
  have hdir : dir < t.size := Tree.lt_size_of_ne_root (by simp [hk])
  have hlisted := members_listed ht hdir hm
  obtain ⟨kind, segment, ho, _, hnode⟩ := members_sound ht hdir hm ha
  obtain rfl : kind = view.groupKind space g := (congrArg Node.kind hnode).symm.trans hg
  obtain ⟨page, hpage, hholds⟩ := LetterGroup.holds_of_mem_groups (hk ▸ ho).made
  obtain ⟨hshown, hview⟩ := mem_visible.1 hpage
  obtain ⟨hshows, hin⟩ := (mem_shownIn hbroken).1 hshown
  have hkind : u.kind a = view.groupKind space g :=
    (hu.keepsPlaces.kind a (hlisted.sound a ha).1).trans hg
  exact ⟨page, (mem_pagesBelow_group hbroken (hu.ordered hlisted.ordered) hkind).2
    ⟨hshows, hin, hholds, hview⟩⟩

/-- No letter group that a directory lists is empty, and two of them list a page in common exactly if the
key of one begins with the key of the other. -/
theorem groups_overlap_iff (hbroken : ctx.repository.broken = []) (ht : t.Built)
    (hk : t.kind dir = .space space view) (hm : ctx.members t dir = (ids, t'))
    (ha : a ∈ ids) (hg : t'.kind a = view.groupKind space g)
    (hb : b ∈ ids) (hg' : t'.kind b = view.groupKind space g')
    (hu : t'.Grown u) (hu' : t'.Grown u') :
    (∃ page, page ∈ ctx.pagesBelow u a) ∧
      ((∃ page, page ∈ ctx.pagesBelow u a ∧ page ∈ ctx.pagesBelow u' b) ↔
        g.key.toList <+: g'.key.toList ∨ g'.key.toList <+: g.key.toList) := by
  have hdir : dir < t.size := Tree.lt_size_of_ne_root (by simp [hk])
  have hlisted := members_listed ht.ordered hdir hm
  -- The same of both groups: what is below them in the trees they are listed in.
  have hbelow : ∀ {u : Tree} {a : Nat} {g : LetterGroup}, t'.Grown u → a ∈ ids →
      t'.kind a = view.groupKind space g → ∀ page, page ∈ ctx.pagesBelow u a ↔
        ctx.repository.store.Shows view page ∧ page.isIn space = true ∧ g.holds page.name = true ∧
          ctx.canView page = true := by
    intro u a g hu ha hg page
    exact mem_pagesBelow_group hbroken (hu.ordered hlisted.ordered)
      ((hu.keepsPlaces.kind a (hlisted.sound a ha).1).trans hg)
  obtain ⟨page, hpage⟩ := exists_pageBelow_group hbroken ht.ordered hk hm ha hg hu
  obtain ⟨page', hpage'⟩ := exists_pageBelow_group hbroken ht.ordered hk hm hb hg' hu'
  obtain ⟨hshows, hin, hholds, hview⟩ := (hbelow hu ha hg page).1 hpage
  obtain ⟨hshows', hin', hholds', hview'⟩ := (hbelow hu' hb hg' page').1 hpage'
  refine ⟨⟨page, hpage⟩, ?_, ?_⟩
  · rintro ⟨both, ha', hb'⟩
    obtain ⟨_, _, hfirst, _⟩ := (hbelow hu ha hg both).1 ha'
    obtain ⟨_, _, hsecond, _⟩ := (hbelow hu' hb hg' both).1 hb'
    exact LetterGroup.comparable_of_holds hfirst hsecond
  · rintro (hkeys | hkeys)
    · exact ⟨page', (hbelow hu ha hg page').2
        ⟨hshows', hin', LetterGroup.holds_of_prefix hkeys hholds', hview'⟩, hpage'⟩
    · exact ⟨page, hpage, (hbelow hu' hb hg' page).2
        ⟨hshows, hin, LetterGroup.holds_of_prefix hkeys hholds, hview⟩⟩

/-- Among keys of two letters, a letter with two uppercase letters makes a key of three. The group of the
first two lists the page that it was made of as well. -/
theorem groups_overlap_sharp_s :
    let main := Space.topLevel "Main"
    let ctx : Context := ⟨⟨.ofStore (.ofPages [.inSpace "Ssb" main, .inSpace "ßa" main]), none⟩,
      ⟨.anonymous, .allowAll⟩, { Config.standard with grouping := ⟨0, 0, 9⟩ }, .read⟩
    let t : Tree := ⟨#[.root, ⟨.baseView .pages, "spaces", some 0, none⟩,
      ⟨.space main .pages, "Main", some 1, none⟩]⟩
    let t' := (ctx.members t 2).2
    let short : LetterGroup := ⟨"SS", by decide, by decide⟩
    let long : LetterGroup := ⟨"SSA", by decide, by decide⟩
    ctx.members t 2 = ([3, 4], t') ∧ t'.kind 3 = .pageGroup main short ∧
      t'.kind 4 = .pageGroup main long ∧
      ∃ page, page ∈ ctx.pagesBelow t' 3 ∧ page ∈ ctx.pagesBelow t' 4 := by
  intro main ctx t t' short long
  have hm : ctx.members t 2 = ([3, 4], t') := by
    dsimp only [ctx, t, t', main]
    rfl
  have hshort : t'.kind 3 = View.pages.groupKind main short := by
    dsimp only [ctx, t, t', main, short]
    rfl
  have hlong : t'.kind 4 = View.pages.groupKind main long := by
    dsimp only [ctx, t, t', main, long]
    rfl
  have hl : ctx.lookup "/spaces/Main" = .ok (2, t) := by
    dsimp only [ctx, t, main]
    rfl
  obtain ⟨_, hcommon⟩ := groups_overlap_iff rfl (lookup_built hl) rfl hm (.head _) hshort
    (.tail _ (.head _)) hlong .refl .refl
  exact ⟨hm, hshort, hlong, hcommon.2 (.inl (by decide))⟩

end Context

end WikiMount
