import WikiMount.Proofs.Node.HiddenPages

/-!
# Listings with queries that fail

What a listing offers comes from at most one query each, and which one it is can be seen from the kinds of
the listed node and of what is offered. A query that fails counts as an empty answer, and of an empty answer
nothing is offered. So queries that fail take away what comes from them, and all else is listed as it would
be if they worked.
-/

namespace WikiMount

/-- The repository with these methods and no others out of order. -/
def Repository.breaking (r : Repository) (broken : List Method) : Repository :=
  { r with broken := broken }

namespace NodeKind

/-- The query that a member of one kind below a node of another comes from. Wiki files, scratch files and what
is in the root are there without a query. -/
def query? : NodeKind → NodeKind → Option Method
  | .baseView .pages, .space _ _ => some .rootSpaces
  | .baseView .attachments, .space _ _ => some .allSpaces
  | .orphans, .page _ => some .orphanPages
  | .space _ .pages, .space _ _ => some .childSpaces
  | .space _ .pages, .page _ | .space _ .pages, .pageGroup _ _ => some .childPagesOfSpace
  | .space _ .attachments, .page _ | .space _ .attachments, .attachmentGroup _ _ =>
    some .pagesWithAttachments
  | .pageGroup _ _, .page _ => some .childPagesWithPrefix
  | .attachmentGroup _ _, .page _ => some .pagesWithAttachments
  | .page _, .page _ => some .childPagesOfPage
  | .page _, .attachment _ => some .attachmentsForPage
  | _, _ => none

/-- A member of a kind does not come from a query that is out of order. -/
def spares (parent : NodeKind) (broken : List Method) (member : NodeKind) : Bool :=
  (parent.query? member).all (· ∉ broken)

theorem spares_scratch (parent : NodeKind) (broken : List Method) (name : String) :
    parent.spares broken (.scratch name) = true := by
  unfold spares query?
  split <;> first | rfl | contradiction

end NodeKind

/-- The entry of a node that is added below a node of the tree. -/
def Tree.entryBelow (t : Tree) (parent : Nat) (n : Node) : Entry where
  name := n.kind.displayName
  path :=
    let path := String.join ((t.describe parent).map Prod.snd ++ ["/" ++ n.segment])
    if path = "" then "/" else path
  kind := n.kind.entryKind
  isCollection := n.kind.isCollection
  reference := n.kind.reference?

namespace Context

variable {ctx : Context} {r : Repository} {t t' : Tree} {id child : Nat} {ids : List Nat}
  {parent : NodeKind} {broken : List Method}

/-! ## Candidates -/

/-- What is made of an answer is taken away as a whole if the query fails, and is kept as it is if not. -/
theorem part_breaking {α : Type} {m : Method} {answer : List α} (hbroken : r.broken = [])
    (part : List α → List Candidate) (hnil : part [] = [])
    (hquery : ∀ c ∈ part answer, parent.query? c.1 = some m) :
    part (listed ((r.breaking broken).asked m (.ok answer))) =
      (part (listed (r.asked m (.ok answer)))).filter fun c => parent.spares broken c.1 := by
  rw [listed_asked hbroken, Repository.asked, Repository.breaking]
  by_cases hm : m ∈ broken
  · rw [if_pos hm, listed, hnil, eq_comm, List.filter_eq_nil_iff]
    intro c hc
    simp [NodeKind.spares, hquery c hc, hm]
  · rw [if_neg hm, listed, eq_comm, List.filter_eq_self]
    intro c hc
    simp [NodeKind.spares, hquery c hc, hm]

theorem grouped_nil (asGroup : LetterGroup → NodeKind) : ctx.grouped asGroup [] = [] := by
  simp only [grouped]
  split <;> rfl

theorem query?_of_mem_grouped {asGroup : LetterGroup → NodeKind} {m : Method} {pages : List Page}
    (hpage : ∀ page, parent.query? (.page page) = some m)
    (hgroup : ∀ group, parent.query? (asGroup group) = some m) :
    ∀ c ∈ ctx.grouped asGroup pages, parent.query? c.1 = some m := by
  rintro ⟨kind, segment⟩ hc
  obtain ⟨page, _, rfl, _⟩ | ⟨group, _, rfl, _⟩ := grouped_cases hc
  · exact hpage page
  · exact hgroup group

theorem childPages_breaking (hbroken : ctx.repository.broken = []) (page : Page) :
    (ctx.onRepository (ctx.repository.breaking broken)).childPages t id page =
      (ctx.childPages t id page).filter fun c => (NodeKind.page page).spares broken c.1 :=
  part_breaking hbroken
    (fun children => (children.filter fun child : Page =>
      !t.closesCycle id child.text && ctx.canView child).map fun child =>
        (.page child, childToken page child))
    rfl (List.forall_mem_map.2 fun _ _ => rfl)

theorem attachments_breaking (hbroken : ctx.repository.broken = []) (page : Page) :
    (ctx.onRepository (ctx.repository.breaking broken)).attachments page =
      (ctx.attachments page).filter fun c => (NodeKind.page page).spares broken c.1 :=
  part_breaking hbroken
    (fun files => ((files.map fun file => Attachment.mk page file).filter fun a =>
      ctx.holds .view (.attachment a)).map fun a => .named (.attachment a))
    rfl (List.forall_mem_map.2 fun _ _ => rfl)

theorem stored?_breaking (hbroken : ctx.repository.broken = []) :
    (ctx.onRepository (ctx.repository.breaking broken)).stored? t id =
      (ctx.stored? t id).map fun stored => stored.filter fun c => (t.kind id).spares broken c.1 := by
  cases hk : t.kind id with
  | root =>
    simp only [stored?, hk]
    rfl
  | baseView view =>
    cases view with
    | pages =>
      simp only [stored?, hk, Option.map_some]
      exact congrArg some (part_breaking hbroken
        (fun names => names.map fun name => .named (.space (.topLevel name) .pages)) rfl
        (List.forall_mem_map.2 fun _ _ => rfl))
    | attachments =>
      simp only [stored?, hk, Option.map_some]
      exact congrArg some (part_breaking hbroken
        (fun spaces => spaces.map fun space => .named (.space space .attachments)) rfl
        (List.forall_mem_map.2 fun _ _ => rfl))
  | orphans =>
    simp only [stored?, hk, Option.map_some]
    exact congrArg some (part_breaking hbroken
      (fun pages => (ctx.visible pages).map fun page => .named (.page page)) rfl
      (List.forall_mem_map.2 fun _ _ => rfl))
  | space space view =>
    cases view with
    | pages =>
      simp only [stored?, hk, Option.map_some, List.filter_append]
      exact congrArg some (congrArg₂ (· ++ ·)
        (part_breaking hbroken
          (fun names => names.map fun name => .named (.space (space.child name) .pages)) rfl
          (List.forall_mem_map.2 fun _ _ => rfl))
        (part_breaking hbroken (fun pages => ctx.grouped (.pageGroup space) (ctx.visible pages))
          (grouped_nil _) (query?_of_mem_grouped (fun _ => rfl) fun _ => rfl)))
    | attachments =>
      simp only [stored?, hk, Option.map_some]
      exact congrArg some (part_breaking hbroken
        (fun pages => ctx.grouped (.attachmentGroup space) (ctx.visible pages)) (grouped_nil _)
        (query?_of_mem_grouped (fun _ => rfl) fun _ => rfl))
  | pageGroup space group =>
    simp only [stored?, hk, Option.map_some]
    exact congrArg some (part_breaking hbroken (fun pages => (ctx.visible pages).map .short) rfl
      (List.forall_mem_map.2 fun _ _ => rfl))
  | attachmentGroup space group =>
    simp only [stored?, hk, Option.map_some]
    exact congrArg some (part_breaking hbroken
      (fun pages => (ctx.visible (pages.filter fun page => group.holds page.name)).map .short) rfl
      (List.forall_mem_map.2 fun _ _ => rfl))
  | page page =>
    have hview : (ctx.onRepository (ctx.repository.breaking broken)).canView page = ctx.canView page := rfl
    simp only [stored?, hk, hview]
    split
    · rw [childPages_breaking hbroken, attachments_breaking hbroken]
      simp only [Option.map_some, List.filter_append]
      rfl
    · rfl
  | attachment _ | wikiFile _ _ | scratch _ =>
    simp only [stored?, hk]
    rfl

theorem scratchFiles_spared (path : String) :
    (ctx.scratchFiles path).filter (fun c => parent.spares broken c.1) = ctx.scratchFiles path := by
  refine List.filter_eq_self.2 fun c hc => ?_
  obtain ⟨_, _, name, _, rfl⟩ := mem_scratchFiles.1 hc
  exact parent.spares_scratch broken name

/-- Queries that fail take away the candidates that come from them and no others. -/
theorem candidates_breaking (hbroken : ctx.repository.broken = []) :
    (ctx.onRepository (ctx.repository.breaking broken)).candidates t id =
      (ctx.candidates t id).filter fun c => (t.kind id).spares broken c.1 := by
  simp only [candidates, stored?_breaking hbroken]
  cases ctx.stored? t id with
  | none => rfl
  | some stored =>
    simp only [Option.map_some, List.filter_append, scratchFiles_spared]
    rfl

/-! ## Entries -/

/-- The entry of a member is known from its node and the chain of the listed node. -/
theorem entry_member (ht : t.Ordered) (hid : id < t.size) (hm : ctx.members t id = (ids, t'))
    (hchild : child ∈ ids) : t'.entry child = t.entryBelow id (t'.node child) := by
  have hlisted := members_listed ht hid hm
  obtain ⟨kind, segment, _, _, hnode⟩ := members_sound ht hid hm hchild
  have hchain := hlisted.ordered.describe_of_parent (congrArg Node.parent hnode)
  rw [hlisted.kept.describe ht hlisted.ordered hid] at hchain
  simp only [Tree.entry, Tree.entryBelow, Tree.path_eq, hchain, List.map_append, List.map_cons,
    List.map_nil]
  rfl

theorem map_members {kept : List Nat} (ht : t.Ordered) (hid : id < t.size)
    (hm : ctx.members t id = (ids, t')) (hkept : ∀ child ∈ kept, child ∈ ids) :
    (kept.map fun child => (t'.node child, t'.entry child)) =
      (kept.map t'.node).map fun n => (n, t.entryBelow id n) := by
  rw [List.map_map]
  refine List.map_congr_left fun child hchild => ?_
  rw [entry_member ht hid hm (hkept child hchild)]
  rfl

/-- Where queries fail, the members of a node are those that do not come from a query that fails, in the same
order, with the same nodes and the same entries. -/
theorem members_breaking (hbroken : ctx.repository.broken = []) (ht : t.Built) (hid : id < t.size)
    (broken : List Method) :
    let whole := ctx.members t id
    let left := (ctx.onRepository (ctx.repository.breaking broken)).members t id
    (left.1.map fun child => (left.2.node child, left.2.entry child)) =
      (whole.1.filter fun child => (t.kind id).spares broken (whole.2.kind child)).map fun child =>
        (whole.2.node child, whole.2.entry child) := by
  rcases hwhole : ctx.members t id with ⟨ids, t'⟩
  rcases hleft : (ctx.onRepository (ctx.repository.breaking broken)).members t id with ⟨rest, t₂⟩
  have hnodes : rest.map t₂.node =
      (ids.map t'.node).filter fun n => (t.kind id).spares broken n.kind := by
    rw [members_nodes ht.ordered hid hwhole, members_nodes ht.ordered hid hleft,
      candidates_breaking hbroken, List.filter_map, List.filter_filter, List.filter_filter]
    exact congrArg _ (List.filter_congr fun c _ => Bool.and_comm _ _)
  change (rest.map fun child => (t₂.node child, t₂.entry child)) =
    (ids.filter fun child => (t.kind id).spares broken (t'.kind child)).map fun child =>
      (t'.node child, t'.entry child)
  rw [map_members ht.ordered hid hleft fun _ h => h, hnodes, List.filter_map,
    map_members ht.ordered hid hwhole fun _ h => (List.mem_filter.1 h).1]
  rfl

/-- A page is listed without its child pages if these cannot be asked for. -/
theorem members_breaking_children :
    let a := Page.inSpace "A" (.topLevel "Main")
    let b := Page.inSpace "B" (.topLevel "Main")
    let half := (Store.empty.write (.attach ⟨a, "a.txt"⟩ ⟨#[1]⟩)).2
    let store := (half.write (.save { Document.blank b with parent := some a })).2
    let scratch := Scratch.empty.write "/spaces/Main/A/.a.swp" ⟨#[2]⟩
    let ctx : Context := ⟨⟨.ofStore store, some scratch⟩, ⟨.anonymous, .allowAll⟩, .standard, .read⟩
    let failing := ctx.onRepository (ctx.repository.breaking [.childPagesOfPage, .orphanPages])
    ctx.repository.broken = [] ∧ ∃ t id, ctx.lookup "/spaces/Main/A" = .ok (id, t) ∧ t.Built ∧
      id < t.size ∧
      ((ctx.members t id).1.map fun child => ((ctx.members t id).2.entry child).path) =
        ["/spaces/Main/A/B", "/spaces/Main/A/a.txt", "/spaces/Main/A/wiki.txt", "/spaces/Main/A/wiki.xml",
          "/spaces/Main/A/.a.swp"] ∧
      ((failing.members t id).1.map fun child => ((failing.members t id).2.entry child).path) =
        ["/spaces/Main/A/a.txt", "/spaces/Main/A/wiki.txt", "/spaces/Main/A/wiki.xml",
          "/spaces/Main/A/.a.swp"] := by
  intro a b half store scratch ctx failing
  let t : Tree := ⟨#[.root, ⟨.baseView .pages, "spaces", some 0, none⟩,
    ⟨.space (.topLevel "Main") .pages, "Main", some 1, none⟩, ⟨.page a, "A", some 2, none⟩]⟩
  let t' : Tree := ⟨t.nodes ++ #[⟨.page b, "B", some 3, none⟩,
    ⟨.attachment ⟨a, "a.txt"⟩, "a.txt", some 3, none⟩, ⟨.wikiFile a .text, "wiki.txt", some 3, none⟩,
    ⟨.wikiFile a .xml, "wiki.xml", some 3, none⟩, ⟨.scratch ".a.swp", ".a.swp", some 3, none⟩]⟩
  have hl : ctx.lookup "/spaces/Main/A" = .ok (3, t) := by
    dsimp only [ctx, store, half, t, a, b]
    rfl
  have hm : ctx.members t 3 = ([4, 5, 6, 7, 8], t') := by
    dsimp only [ctx, store, half, t', t, a, b]
    rfl
  have ht : t.Built := lookup_built hl
  have hworking : ctx.repository.broken = [] := rfl
  have hleft := congrArg (List.map fun member => member.2.path)
    (members_breaking hworking ht (by decide : 3 < t.size) [.childPagesOfPage, .orphanPages])
  rw [List.map_map, List.map_map] at hleft
  refine ⟨hworking, t, 3, hl, ht, by decide, by rw [hm]; decide, hleft.trans ?_⟩
  rw [hm]
  decide

end Context

end WikiMount
