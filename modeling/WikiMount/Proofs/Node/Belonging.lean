import WikiMount.Proofs.Node.Chains
import WikiMount.Proofs.Storage.Reachable

/-!
# The pages below a directory of a space

A page that is found in a space directory or in a letter group is to live in that space and to fall in
that group. Each rule of decoding tests what it finds in its own way, and two of the tests leave a gap. A
full name is only compared with the last segment of the space that is asked, so it may name a page of
another space. A letter group of the attachments view does not compare the name with its key. Every node
of a tree that resolving has built was found by one of the rules, so it strays in one of these two ways
or belongs to its directory.
-/

namespace WikiMount

/-- The letter group that a node stands for. -/
def NodeKind.group? : NodeKind → Option LetterGroup
  | .pageGroup _ group | .attachmentGroup _ group => some group
  | _ => none

/-- A page lives in the space of a directory and falls in its letter group, as far as the directory is
one of a space or of a letter group. -/
structure NodeKind.Collects (dir : NodeKind) (page : Page) : Prop where
  space : ∀ space, dir.space? = some space → page.isIn space = true
  group : ∀ group, dir.group? = some group → group.holds page.name = true

/-- A token leads from a directory to a stored page that does not belong there. -/
inductive Repository.Strays (r : Repository) (token : String) : NodeKind → Page → Prop
  /-- The token is the full name of a page of another space, and begins like the last segment of the
  space of the directory. -/
  | elsewhere {space other : Space} {page : Page}
      (hbegins : space.name.toList ++ ['.'] <+: token.toList) (htext : Page.ofText token = .ok page)
      (hspace : page.space = some other) (hother : other ≠ space) (hstored : r.hasPage page = true) :
      Strays r token (.space space .pages) page
  /-- The token is the name of a page of the space that does not begin with the key of the group. -/
  | ungrouped {space : Space} {group : LetterGroup} (hkey : group.holds token = false)
      (hstored : r.hasPage (.inSpace token space) = true) :
      Strays r token (.attachmentGroup space group) (.inSpace token space)

/-- No rule of decoding takes the token for a scratch file, nor a space directory for a letter group or
for what the space holds under that name. -/
structure Repository.LeavesFree (r : Repository) (dir : NodeKind) (token : String) : Prop where
  scratch : ReservedName.isScratch token = false
  group : ∀ space, dir = .space space .pages → ReservedName.isGroup token = false
  page : ∀ space, dir = .space space .pages → r.hasPage (.inSpace token space) = false
  space : ∀ space, dir = .space space .pages → r.hasSpace (space.child token) = false

theorem Repository.Strays.exists_space {r : Repository} {token : String} {dir : NodeKind} {page : Page}
    (h : r.Strays token dir page) : ∃ space, page.space = some space := by
  cases h with
  | elsewhere _ _ hspace => exact ⟨_, hspace⟩
  | ungrouped => exact ⟨_, rfl⟩

namespace Context

variable {ctx : Context} {t t' : Tree} {id child : Nat} {dir : NodeKind} {page : Page}
  {token : String} {tokens : List String} {last : Bool}

/-! ## One token -/

theorem collects_space_iff {space : Space} {view : View} :
    (NodeKind.space space view).Collects page ↔ page.space = some space := by
  constructor
  · intro h
    simpa [Page.isIn] using h.space space rfl
  · intro h
    refine ⟨fun asked hasked => ?_, fun group hgroup => by cases hgroup⟩
    obtain rfl : space = asked := Option.some.inj hasked
    simp [Page.isIn, h]

theorem collects_group_iff {space : Space} {group : LetterGroup} (hspace : dir.space? = some space)
    (hgroup : dir.group? = some group) :
    dir.Collects (.inSpace token space) ↔ group.holds token = true := by
  constructor
  · exact fun h => h.group group hgroup
  · intro h
    refine ⟨fun asked hasked => ?_, fun other hother => ?_⟩
    · obtain rfl : space = asked := Option.some.inj (hspace.symm.trans hasked)
      simp [Page.isIn, Page.inSpace]
    · exact Option.some.inj (hgroup.symm.trans hother) ▸ h

/-- Whatever rule a page was found by, it belongs to the directory or strays. -/
theorem Decodes.collects_iff (h : ctx.Decodes token last dir (.page page)) :
    dir.Collects page ↔ ¬ctx.repository.Strays token dir page := by
  cases h with
  | own =>
    refine iff_of_true (collects_space_iff.2 rfl) fun hstrays => ?_
    cases hstrays with
    | elsewhere _ _ hspace hother => exact hother (Option.some.inj hspace).symm
  | holder => exact iff_of_true (collects_space_iff.2 rfl) fun hstrays => by cases hstrays
  | @full space _ _ _ _ _ h =>
    obtain ⟨hbegins, htext, hsome, hstored⟩ := pageByFullName?_eq_some.1 h
    obtain ⟨other, hspace⟩ := Option.isSome_iff_exists.1 hsome
    rw [collects_space_iff, hspace, Option.some.injEq]
    refine ⟨fun hsame hstrays => ?_, fun hnot => ?_⟩
    · cases hstrays with
      | elsewhere _ _ hspace' hother =>
        exact hother (Option.some.inj (hspace'.symm.trans hspace) ▸ hsame)
    · exact Decidable.byContradiction fun hother =>
        hnot (.elsewhere hbegins htext hspace hother hstored)
  | grouped _ hgroup =>
    exact iff_of_true ((collects_group_iff rfl rfl).2 hgroup) fun hstrays => by cases hstrays
  | groupedHolder _ hstored =>
    rw [collects_group_iff rfl rfl]
    refine ⟨fun hholds hstrays => ?_, fun hnot => ?_⟩
    · cases hstrays with
      | ungrouped hkey => simp [hholds] at hkey
    · exact Decidable.byContradiction fun hkey =>
        hnot (.ungrouped (Bool.not_eq_true _ ▸ hkey) hstored)
  | view _ hview => obtain ⟨_, h⟩ | h := decodeBaseView_ok hview <;> cases h
  | orphan | child =>
    refine iff_of_true ⟨fun space hspace => ?_, fun group hgroup => ?_⟩ fun hstrays => ?_
    · cases hspace
    · cases hgroup
    · cases hstrays

/-- A request that names nothing new finds the page that strays, unless the token is taken. -/
theorem decodes_of_strays (hintent : ctx.intent.isCreateOrMove = false)
    (h : ctx.repository.Strays token dir page) (hfree : ctx.repository.LeavesFree dir token) :
    ctx.Decodes token true dir (.page page) := by
  have hnew : ctx.mayBeNew true = false := by simp [mayBeNew, hintent]
  cases h with
  | @elsewhere space other page hbegins htext hspace _ hstored =>
    have hmoving : ctx.moving? true = none := by
      cases hi : ctx.intent <;> simp_all [moving?, Intent.isCreateOrMove, Intent.moveSource?]
    have hcreate : ctx.intent.isCreateCollection = false := by
      cases hi : ctx.intent <;> simp_all [Intent.isCreateOrMove, Intent.isCreateCollection]
    have hgroup : ctx.namesGroup token true = false := by simp [namesGroup, hfree.group space rfl]
    have hpage : ctx.namesPage space token true = false := by
      simp [namesPage, hcreate, hmoving, hfree.page space rfl]
    have hnested : ctx.namesSpace space token true = false := by
      simp [namesSpace, hmoving, hfree.space space rfl]
    refine .full hfree.scratch hgroup hpage hnested (pageByFullName?_eq_some.2 ?_)
    exact ⟨hbegins, htext, by simp [hspace], hstored⟩
  | ungrouped _ hstored => exact .groupedHolder hfree.scratch hstored hnew

/-! ## All tokens of a path -/

/-- Every node that has a parent was found there by a rule of decoding. -/
def Explains (ctx : Context) (t : Tree) : Prop := ∀ id parent, (t.node id).parent = some parent →
  ∃ last, ctx.Decodes (t.node id).segment last (t.kind parent) (t.kind id)

theorem explains_new : ctx.Explains .new := by
  intro id parent hp
  have hid : id = 0 := Nat.lt_one_iff.1 (Tree.lt_size_of_parent hp)
  subst hid
  cases hp

theorem Explains.step (he : ctx.Explains t) (h : t.Resolved) (hid : id < t.size)
    (hs : ctx.step t id token last = .ok (child, t')) : ctx.Explains t' := by
  obtain ⟨kind, hk, hi⟩ := step_eq_ok.1 hs
  obtain ⟨rfl, _⟩ := Tree.size_insert hi
  intro other parent hp
  rw [Tree.node_insert hi] at hp ⊢
  simp only [Tree.kind_insert hi]
  split at hp
  next hother =>
    obtain rfl := Option.some.inj hp
    refine ⟨last, ?_⟩
    rwa [if_pos hother, if_pos hother, if_neg (by omega)]
  -- A node that was there before has its parent among those that were there before, too.
  next hother =>
    have hparent : parent < other := h.parent_lt other parent hp
    have hlt : other < t.size := Tree.lt_size_of_parent hp
    rw [if_neg hother, if_neg hother, if_neg (by omega)]
    exact he other parent hp

theorem Explains.resolve (he : ctx.Explains t) (h : t.Resolved) (hid : id < t.size)
    (hr : ctx.resolve t id tokens = (.ok child, t')) : ctx.Explains t' := by
  induction tokens generalizing t id with
  | nil =>
    obtain ⟨_, rfl⟩ := Prod.mk.inj hr
    exact he
  | cons token rest ih =>
    simp only [Context.resolve] at hr
    split at hr
    · simp at hr
    next next t₁ hs =>
      obtain ⟨h₁, _, hlt⟩ := step_resolved h hid hs
      exact ih (he.step h hid hs) h₁ hlt hr

/-- On the way to what a path names a page belongs to the directory that it is found in, unless it strays
there in one of two ways. In these ways every page that strays is found by a request that names nothing
new. -/
theorem resolve_collects (h : ctx.resolve .new 0 tokens = (.ok id, t)) :
    (∀ a dir page, (t.node a).parent = some dir → t.kind a = .page page →
      ((t.kind dir).Collects page ↔
        ¬ctx.repository.Strays (t.node a).segment (t.kind dir) page)) ∧
    (ctx.intent.isCreateOrMove = false → ∀ token page,
      ctx.repository.Strays token (t.kind id) page → ctx.repository.LeavesFree (t.kind id) token →
      ∃ child t', ctx.resolve .new 0 (tokens ++ [token]) = (.ok child, t') ∧
        t'.node child = ⟨.page page, token, some id, none⟩ ∧ t'.kind id = t.kind id) := by
  obtain ⟨_, _, hid⟩ := resolve_resolved .new (by decide) h
  refine ⟨fun a dir page hparent hpage => ?_, fun hintent token page hstrays hfree => ?_⟩
  · obtain ⟨last, hdecodes⟩ := explains_new.resolve .new (by decide) h a dir hparent
    exact (hpage ▸ hdecodes).collects_iff
  · obtain ⟨space, hspace⟩ := hstrays.exists_space
    have hvalid := Tree.validate_page hspace (t.kind id)
    have hinsert : t.insert id (.page page) token =
        .ok (t.size, ⟨t.nodes.push ⟨.page page, token, some id, none⟩⟩) := by
      simp only [Tree.insert, hvalid]
    have hstep := step_eq_ok.2 ⟨_, decodes_of_strays hintent hstrays hfree, hinsert⟩
    have henter := (resolve_of_stored_eq_ok hintent).1 h
    refine ⟨_, _, resolve_concat_eq_ok.2 ⟨id, t, henter, hstep⟩, Tree.node_insert_self hinsert, ?_⟩
    exact congrArg Node.kind ((Tree.Extends.insert hinsert).node id hid)

/-- A removal that is asked for in a nested space finds a page of the top-level space of the same name. -/
theorem resolve_collects_elsewhere :
    let ab := (Space.topLevel "A").child "B"
    let x := Page.inSpace "X" (.topLevel "B")
    let ctx : Context := ⟨⟨.ofStore (.ofPages [x, .inSpace "Home" ab]), none⟩, ⟨.anonymous, .allowAll⟩,
      .standard, .delete⟩
    ∃ child t, ctx.resolve .new 0 ["spaces", "A", "B", "B.X"] = (.ok child, t) ∧
      t.node child = ⟨.page x, "B.X", some 3, none⟩ ∧ t.kind 3 = .space ab .pages ∧
      ¬(t.kind 3).Collects x := by
  intro ab x ctx
  let t : Tree := ⟨#[.root, ⟨.baseView .pages, "spaces", some 0, none⟩,
    ⟨.space (.topLevel "A") .pages, "A", some 1, none⟩, ⟨.space ab .pages, "B", some 2, none⟩]⟩
  have hr : ctx.resolve .new 0 ["spaces", "A", "B"] = (.ok 3, t) := by
    dsimp only [ctx, t, x, ab]
    rfl
  have hstrays : ctx.repository.Strays "B.X" (t.kind 3) x :=
    .elsewhere (by decide) rfl rfl (by decide) (by decide)
  have hfree : ctx.repository.LeavesFree (t.kind 3) "B.X" := by
    refine ⟨by decide, fun _ _ => by decide, fun space hspace => ?_, fun space hspace => ?_⟩
    · cases hspace
      decide
    · cases hspace
      decide
  obtain ⟨child, t', hfound, hnode, hdir⟩ := (resolve_collects hr).2 rfl _ _ hstrays hfree
  refine ⟨child, t', hfound, hnode, hdir, fun hcollects => ?_⟩
  have hcollects_iff := (resolve_collects hfound).1 child 3 x (congrArg Node.parent hnode)
    (congrArg Node.kind hnode)
  rw [hnode, hdir] at hcollects_iff
  exact hcollects_iff.1 (hdir ▸ hcollects) hstrays

end Context

end WikiMount
