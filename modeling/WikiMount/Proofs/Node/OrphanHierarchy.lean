import Mathlib.Logic.ExistsUnique
import WikiMount.Proofs.Node.PageHierarchy

/-!
# The hierarchy below the orphans

The orphans view lists the pages whose parent is not stored, and below a page its children. Going down
from page to page in it retraces the line of parents of the page that is reached, so a page is reached
exactly if its line of parents ends, and then along this line only. Pages on a cycle of parents, and the
pages below these, are not reached.
-/

namespace WikiMount

namespace Store

/-- A page and then its parents one after the other, up to a stored page whose own parent is absent or
not stored. -/
inductive ParentLine (s : Store) : List Page → Prop
  | root {page : Page} {d : Document} (hd : s.documents.get? page = some d)
      (hparent : ∀ parent, d.parent = some parent → s.hasPage parent = false) : ParentLine s [page]
  | under {page parent : Page} {above : List Page} {d : Document}
      (hd : s.documents.get? page = some d) (hparent : d.parent = some parent)
      (h : ParentLine s (parent :: above)) : ParentLine s (page :: parent :: above)

/-- Following the parents of the page ends, after finitely many steps, at a stored page whose own parent
is absent or not stored. -/
def Rooted (s : Store) (page : Page) : Prop := ∃ above, s.ParentLine (page :: above)

namespace ParentLine

variable {s : Store} {page : Page} {pages above above' : List Page}

theorem stored (h : s.ParentLine (page :: above)) : s.hasPage page = true := by
  cases h with
  | root hd _ => rw [hasPage_eq, hd]; rfl
  | under hd _ _ => rw [hasPage_eq, hd]; rfl

/-- A line goes on at a parent that is stored. -/
theorem next {parent : Page} {d : Document} (h : s.ParentLine (page :: above))
    (hd : s.documents.get? page = some d) (hparent : d.parent = some parent)
    (hstored : s.hasPage parent = true) :
    ∃ rest, above = parent :: rest ∧ s.ParentLine (parent :: rest) := by
  cases h with
  | root hd' hroot =>
    obtain rfl := Option.some.inj (hd.symm.trans hd')
    exact absurd hstored (by simp [hroot _ hparent])
  | under hd' hparent' h =>
    obtain rfl := Option.some.inj (hd.symm.trans hd')
    obtain rfl := Option.some.inj (hparent.symm.trans hparent')
    exact ⟨_, rfl, h⟩

/-- A page has one line of parents at most. -/
theorem unique (h : s.ParentLine (page :: above)) (h' : s.ParentLine (page :: above')) :
    above = above' := by
  generalize hpages : page :: above = pages at h
  induction h generalizing page above above' with
  | root hd hroot =>
    obtain ⟨rfl, rfl⟩ := List.cons.inj hpages
    cases h' with
    | root _ _ => rfl
    | under hd' hparent h' =>
      obtain rfl := Option.some.inj (hd.symm.trans hd')
      exact absurd h'.stored (by simp [hroot _ hparent])
  | under hd hparent h ih =>
    obtain ⟨rfl, rfl⟩ := List.cons.inj hpages
    obtain ⟨rest, rfl, hrest⟩ := h'.next hd hparent h.stored
    exact congrArg _ (ih hrest rfl)

theorem of_append (below : List Page) (h : s.ParentLine (below ++ page :: above)) :
    s.ParentLine (page :: above) := by
  induction below with
  | nil => exact h
  | cons first below ih =>
    refine ih ?_
    rw [List.cons_append] at h
    generalize hrest : below ++ page :: above = rest at h
    cases h with
    | root _ _ => simp at hrest
    | under _ _ h => exact h

/-- A line that ends meets no page twice: it would go on from there as it did before. -/
theorem nodup (h : s.ParentLine pages) : pages.Nodup := by
  induction pages with
  | nil => exact .nil
  | cons page above ih =>
    have hnot : page ∉ above := by
      intro hmem
      obtain ⟨between, rest, rfl⟩ := List.append_of_mem hmem
      have hagain : s.ParentLine (page :: rest) :=
        of_append (page :: between) h
      have hlength := congrArg List.length (unique h hagain)
      simp only [List.length_append, List.length_cons] at hlength
      omega
    refine List.nodup_cons.2 ⟨hnot, ?_⟩
    cases h with
    | root _ _ => exact .nil
    | under _ _ h => exact ih h

end ParentLine

end Store

namespace Tree

variable {t t' : Tree} {id : Nat}

/-- What has been read for the nodes does not show in a chain. -/
theorem describe_congr (hkind : ∀ id, t'.kind id = t.kind id)
    (hparent : ∀ id, (t'.node id).parent = (t.node id).parent)
    (hsegment : ∀ id, (t'.node id).segment = (t.node id).segment) : t'.describe id = t.describe id := by
  have hancestors : ∀ steps id, t'.ancestorsWithin steps id = t.ancestorsWithin steps id := by
    intro steps
    induction steps with
    | zero => exact fun _ => rfl
    | succ steps ih =>
      intro id
      simp only [ancestorsWithin, hparent, ih]
  have hrelative : ∀ id, (t'.node id).relativePath = (t.node id).relativePath := by
    intro id
    simp only [Node.relativePath, hparent, hsegment]
  simp only [describe, ancestors, hancestors, hkind, hrelative]

theorem describe_modify (t : Tree) (other : Nat) {f : Node → Node}
    (hf : ∀ n, (f n).kind = n.kind ∧ (f n).parent = n.parent ∧ (f n).segment = n.segment) :
    (Tree.mk (t.nodes.modify other f)).describe id = t.describe id := by
  have hnode : ∀ id, (Tree.mk (t.nodes.modify other f)).node id = t.node id ∨
      (Tree.mk (t.nodes.modify other f)).node id = f (t.node id) := by
    intro id
    simp only [node, Array.getElem?_modify]
    split
    · cases t.nodes[id]? <;> simp
    · exact .inl rfl
  refine describe_congr (fun id => ?_) (fun id => ?_) fun id => ?_
  · rcases hnode id with h | h <;> simp [kind, h, hf]
  · rcases hnode id with h | h <;> simp [h, hf]
  · rcases hnode id with h | h <;> simp [h, hf]

/-- A tree that grows keeps the chains that it had. -/
theorem Grown.describe (h : t.Grown t') (ho : t.Ordered) (hid : id < t.size) :
    t'.describe id = t.describe id := by
  induction h with
  | refl => rfl
  | insert h hparent hi ih =>
    have hmid := h.ordered ho
    have hlt := Nat.lt_of_lt_of_le hid h.keepsPlaces.size_le
    rw [(Extends.insert hi).describe hmid (hmid.insert hparent hi) hlt, ih]
  | @remember mid _ other d ih =>
    have hread : (mid.remember other d).describe id = mid.describe id :=
      mid.describe_modify other fun _ => ⟨rfl, rfl, rfl⟩
    exact hread.trans ih
  | @forget mid _ other ih =>
    have hread : (mid.forget other).describe id = mid.describe id :=
      mid.describe_modify other fun _ => ⟨rfl, rfl, rfl⟩
    exact hread.trans ih

end Tree

namespace Context

variable {ctx : Context} {t t' t₀ : Tree} {id id₀ child : Nat} {ids : List Nat} {page : Page}
  {pages : List Page}

/-! ## The listing of the orphans -/

/-- The page nodes that a listing of the orphans adds are the orphans that may be viewed. -/
theorem pagesAmong_members_orphans (hs : ctx.repository.store.Coherent) (h : t.Ordered)
    (hid : id < t.size) (hk : t.kind id = .orphans) (hm : ctx.members t id = (ids, t')) :
    t'.pagesAmong ids = ctx.visible (listed ctx.repository.orphans) := by
  have hspaces : ∀ found segment, ctx.Offers t id (t.kind id) (.page found) segment →
      ∃ space, found.space = some space := by
    intro found segment ho
    rw [hk] at ho
    cases ho with
    | orphan hlisted _ =>
      exact hs.space_of_stored (Store.hasPage_of_mem_orphans hs (mem_listed_asked.1 hlisted).2)
  rw [pagesAmong_members_eq h hid hm hspaces]
  simp only [candidates, stored?, hk, List.filterMap_append, filterMap_page?_scratchFiles,
    List.append_nil, List.filterMap_map]
  exact List.filterMap_some

/-! ## Going down from the orphans -/

/-- The nodes that lead from the orphans to the first of some pages, each page below the next. -/
def wayDown : List Page → List (NodeKind × String)
  | [] => []
  | [page] => [(.page page, "/" ++ page.text)]
  | page :: parent :: above =>
    wayDown (parent :: above) ++ [(.page page, "/" ++ childToken parent page)]

/-- Going down from a node by listing, from page to page: the node that has been reached and the pages on
the way, the latest first. Meanwhile the tree may grow in any other way. -/
inductive DescentFrom (ctx : Context) (t₀ : Tree) (id₀ : Nat) : Tree → Nat → List Page → Prop
  | start : DescentFrom ctx t₀ id₀ t₀ id₀ []
  | down {t t' : Tree} {id child : Nat} {ids : List Nat} {page : Page} {pages : List Page}
      (h : DescentFrom ctx t₀ id₀ t id pages) (hm : ctx.members t id = (ids, t'))
      (hchild : child ∈ ids) (hk : t'.kind child = .page page) :
      DescentFrom ctx t₀ id₀ t' child (page :: pages)
  | meanwhile {t t' : Tree} {id : Nat} {pages : List Page} (h : DescentFrom ctx t₀ id₀ t id pages)
      (ht : t.Grown t') : DescentFrom ctx t₀ id₀ t' id pages

/-- Where a way down from the orphans has led: the run of pages that leads up from there is the line of
parents of the page that has been reached. -/
inductive Lands (ctx : Context) (t : Tree) (id : Nat) : List Page → Prop
  | orphans (hk : t.kind id = .orphans) : Lands ctx t id []
  | page {page : Page} {above : List Page} (hk : t.kind id = .page page)
      (hline : ctx.repository.store.ParentLine (page :: above))
      (hrun : ∀ other, t.OnRun id other ↔ other ∈ page :: above) : Lands ctx t id (page :: above)

/-- What is known of a way down from the orphans. -/
structure Retraced (ctx : Context) (t₀ : Tree) (id₀ : Nat) (t : Tree) (id : Nat) (pages : List Page) :
    Prop where
  ordered : t.Ordered
  lt : id < t.size
  lands : ctx.Lands t id pages
  chain : t.describe id = t₀.describe id₀ ++ wayDown pages

theorem Lands.grown (h : ctx.Lands t id pages) (ho : t.Ordered) (hplaces : t.KeepsPlaces t')
    (hid : id < t.size) : ctx.Lands t' id pages := by
  cases h with
  | orphans hk => exact .orphans ((hplaces.kind _ hid).trans hk)
  | page hk hline hrun =>
    refine .page ((hplaces.kind _ hid).trans hk) hline fun other => ?_
    rw [← hrun]
    exact ⟨fun h => h.of_grown ho hplaces hid, fun h => h.grown ho hplaces hid⟩

/-- A page that a listing adds has the line of the listed node above it, and is reached by the token that
the line prescribes. -/
theorem Lands.member (hs : ctx.repository.store.Coherent) {segment : String}
    (h : ctx.Lands t id pages) (ho : ctx.Offers t id (t.kind id) (.page page) segment) :
    ctx.repository.store.ParentLine (page :: pages) ∧
      wayDown (page :: pages) = wayDown pages ++ [(.page page, "/" ++ segment)] := by
  cases h with
  | orphans hk =>
    rw [hk] at ho
    cases ho with
    | orphan hlisted _ =>
      obtain ⟨d, hd, hparent⟩ := (Store.mem_orphans hs).1 (mem_listed_asked.1 hlisted).2
      exact ⟨.root hd hparent, rfl⟩
  | page hk hline _ =>
    rw [hk] at ho
    cases ho with
    | child _ hlisted _ _ =>
      obtain ⟨d, hd, hparent⟩ := (Store.mem_childrenOf hs).1 (mem_listed_asked.1 hlisted).2
      exact ⟨.under hd hparent hline, rfl⟩

theorem Retraced.down (hs : ctx.repository.store.Coherent) (h : ctx.Retraced t₀ id₀ t id pages)
    (hm : ctx.members t id = (ids, t')) (hchild : child ∈ ids) (hk : t'.kind child = .page page) :
    ctx.Retraced t₀ id₀ t' child (page :: pages) := by
  have hlisted := members_listed h.ordered h.lt hm
  obtain ⟨kind, segment, ho, _, hnode⟩ := members_sound h.ordered h.lt hm hchild
  obtain rfl : kind = .page page := (congrArg Node.kind hnode).symm.trans hk
  have hparent : (t'.node child).parent = some id := congrArg Node.parent hnode
  obtain ⟨hline, hway⟩ := h.lands.member hs ho
  have hlands := h.lands.grown h.ordered hlisted.kept.keepsPlaces h.lt
  refine ⟨hlisted.ordered, (hlisted.sound child hchild).1, .page hk hline fun other => ?_, ?_⟩
  · constructor
    · intro hrun
      cases hrun with
      | here hk' => exact NodeKind.page.inj (hk.symm.trans hk') ▸ .head _
      | above _ hp hrun =>
        obtain rfl := Option.some.inj (hparent.symm.trans hp)
        cases hlands with
        | orphans hk₀ =>
          obtain ⟨own, hown⟩ := hrun.exists_page
          cases hk₀.symm.trans hown
        | page _ _ hruns => exact .tail _ ((hruns other).1 hrun)
    · intro hmem
      rcases List.mem_cons.1 hmem with rfl | hmem
      · exact .here hk
      · cases hlands with
        | orphans _ => cases hmem
        | page _ _ hruns => exact .above hk hparent ((hruns other).2 hmem)
  · rw [hlisted.ordered.describe_of_parent hparent, hlisted.kept.describe h.ordered hlisted.ordered h.lt,
      h.chain, hway, hk, hnode, List.append_assoc]

theorem DescentFrom.retraced (hs : ctx.repository.store.Coherent) (ht : t₀.Ordered)
    (hk : t₀.kind id₀ = .orphans) (h : ctx.DescentFrom t₀ id₀ t id pages) :
    ctx.Retraced t₀ id₀ t id pages := by
  induction h with
  | start => exact ⟨ht, Tree.lt_size_of_ne_root (by simp [hk]), .orphans hk, by simp [wayDown]⟩
  | down _ hm hchild hk ih => exact ih.down hs hm hchild hk
  | meanwhile _ hgrown ih =>
    have hplaces := hgrown.keepsPlaces
    exact ⟨hgrown.ordered ih.ordered, Nat.lt_of_lt_of_le ih.lt hplaces.size_le,
      ih.lands.grown ih.ordered hplaces ih.lt, (hgrown.describe ih.ordered ih.lt).trans ih.chain⟩

/-! ## Every line is retraced -/

/-- A page below which the line of parents goes on is offered: it is not on the run above. -/
theorem Lands.offers (hbroken : ctx.repository.broken = []) (hs : ctx.repository.store.Coherent)
    (hwell : ∀ page, ctx.repository.store.hasPage page = true → page.isWellFormed = true)
    (hview : ∀ page, ctx.repository.store.hasPage page = true → ctx.canView page = true)
    (ht : t.Ordered) (h : ctx.Lands t id pages) (hline : ctx.repository.store.ParentLine (page :: pages)) :
    ∃ segment, ctx.Offers t id (t.kind id) (.page page) segment := by
  have hpage := hview page hline.stored
  cases h with
  | orphans hk =>
    rw [hk]
    cases hline with
    | root hd hparent =>
      exact ⟨_, .orphan (mem_listed hbroken ((Store.mem_orphans hs).2 ⟨_, hd, hparent⟩)) hpage⟩
  | @page parent above hk hown hrun =>
    rw [hk]
    have hcycle : t.closesCycle id page.text = false := by
      rw [← Bool.not_eq_true, ht.closesCycle_iff]
      rintro ⟨other, hother, htext⟩
      obtain rfl := Page.eq_of_text_eq (hwell page hline.stored) htext
      exact (List.nodup_cons.1 hline.nodup).1 ((hrun _).1 hother)
    cases hline with
    | under hd hparent _ =>
      exact ⟨_, .child (hview parent hown.stored)
        (mem_listed hbroken ((Store.mem_childrenOf hs).2 ⟨_, hd, hparent⟩)) hcycle hpage⟩

theorem exists_descent (hbroken : ctx.repository.broken = []) (hs : ctx.repository.store.Coherent)
    (hwell : ∀ page, ctx.repository.store.hasPage page = true → page.isWellFormed = true)
    (hview : ∀ page, ctx.repository.store.hasPage page = true → ctx.canView page = true)
    (ht : t₀.Ordered) (hk : t₀.kind id₀ = .orphans) (hline : ctx.repository.store.ParentLine pages) :
    ∃ t id, ctx.DescentFrom t₀ id₀ t id pages := by
  -- The node above is reached by the rest of the line; then one listing adds the page.
  have hstep : ∀ {t id page above}, ctx.DescentFrom t₀ id₀ t id above →
      ctx.repository.store.ParentLine (page :: above) →
        ∃ t' child, ctx.DescentFrom t₀ id₀ t' child (page :: above) := by
    intro t id page above h hline
    have hretraced := h.retraced hs ht hk
    obtain ⟨segment, ho⟩ := hretraced.lands.offers hbroken hs hwell hview hretraced.ordered hline
    obtain ⟨space, hspace⟩ := hs.space_of_stored hline.stored
    obtain ⟨child, hchild, hnode⟩ :=
      members_complete hretraced.ordered hretraced.lt rfl ho (Tree.validate_page hspace _)
    exact ⟨_, child, h.down rfl hchild (congrArg Node.kind hnode)⟩
  induction hline with
  | root hd hparent => exact hstep .start (.root hd hparent)
  | under hd hparent h ih =>
    obtain ⟨t, id, hdescent⟩ := ih
    exact hstep hdescent (.under hd hparent h)

/-- From the orphans listing leads down to the pages whose line of parents ends, to each of them along one
chain of nodes, and no listing on the way shows a page twice. -/
theorem orphans_lead_to (hs : ctx.repository.store.Reachable) (hbroken : ctx.repository.broken = [])
    (hwell : ∀ page, ctx.repository.store.hasPage page = true → page.isWellFormed = true)
    (hview : ∀ page, ctx.repository.store.hasPage page = true →
      ctx.caller.policy.grants .view (.page page) = true)
    (ht : t₀.Built) (hk : t₀.kind id₀ = .orphans) :
    (∀ page, (∃ t id pages, ctx.DescentFrom t₀ id₀ t id (page :: pages)) ↔
        ctx.repository.store.Rooted page) ∧
      (∀ page, ctx.repository.store.Rooted page → ∃! chain, ∃ t id pages,
        ctx.DescentFrom t₀ id₀ t id (page :: pages) ∧ t.describe id = t₀.describe id₀ ++ chain) ∧
      ∀ t id pages ids t', ctx.DescentFrom t₀ id₀ t id pages → ctx.members t id = (ids, t') →
        (t'.pagesAmong ids).Nodup := by
  have hretraced : ∀ {t id pages}, ctx.DescentFrom t₀ id₀ t id pages →
      ctx.Retraced t₀ id₀ t id pages := fun h => h.retraced hs.coherent ht.ordered hk
  have hlined : ∀ {t id page above}, ctx.DescentFrom t₀ id₀ t id (page :: above) →
      ctx.repository.store.ParentLine (page :: above) := by
    intro t id page above h
    cases (hretraced h).lands with
    | page _ hline _ => exact hline
  have hdescent : ∀ {pages}, ctx.repository.store.ParentLine pages →
      ∃ t id, ctx.DescentFrom t₀ id₀ t id pages := fun hline =>
    exists_descent hbroken hs.coherent hwell hview ht.ordered hk hline
  refine ⟨fun page => ⟨?_, ?_⟩, fun page hrooted => ?_, fun t id pages ids t' h hm => ?_⟩
  · rintro ⟨t, id, pages, h⟩
    exact ⟨pages, hlined h⟩
  · rintro ⟨above, hline⟩
    obtain ⟨t, id, h⟩ := hdescent hline
    exact ⟨t, id, above, h⟩
  · obtain ⟨above, hline⟩ := hrooted
    obtain ⟨t, id, h⟩ := hdescent hline
    refine ⟨wayDown (page :: above), ⟨t, id, above, h, (hretraced h).chain⟩, ?_⟩
    rintro chain ⟨t', id', above', h', hchain⟩
    obtain rfl := (hlined h').unique hline
    exact List.append_cancel_left (hchain.symm.trans (hretraced h').chain)
  · have hway := hretraced h
    cases hway.lands with
    | orphans hk =>
      rw [pagesAmong_members_orphans hs.coherent hway.ordered hway.lt hk hm, visible]
      have hlisted : listed ctx.repository.orphans = ctx.repository.store.orphans :=
        listed_asked hbroken
      rw [hlisted]
      exact (Store.orphans_nodup hs.coherent).filter _
    | page hk hline _ =>
      rw [pagesAmong_members hs.coherent hway.ordered hk (hview _ hline.stored) hm]
      have hlisted : ∀ page, listed (ctx.repository.childrenOf page) =
          ctx.repository.store.childrenOf page := fun _ => listed_asked hbroken
      rw [hlisted]
      exact (Store.childrenOf_nodup hs.coherent _).filter _

/-- A page below an orphan in another space is reached, a page below two pages that are each other's
parent is not. -/
theorem orphans_lead_to_beside_cycle :
    let a := Page.inSpace "A" (.topLevel "Main")
    let b := Page.inSpace "B" (.topLevel "Other")
    let c := Page.inSpace "C" (.topLevel "Main")
    let d := Page.inSpace "D" (.topLevel "Main")
    let e := Page.inSpace "E" (.topLevel "Main")
    let file := fun (s : Store) (child parent : Page) =>
      (s.write (.save { Document.blank child with parent := some parent })).2
    let store := file (file (file (file (.ofPages [a]) b a) c d) d c) e d
    let ctx : Context := ⟨⟨.ofStore store, none⟩, ⟨.anonymous, .allowAll⟩, .standard, .read⟩
    ∃ t id, ctx.lookup "/orphans" = .ok (id, t) ∧
      (∃! chain, ∃ t' child pages,
        ctx.DescentFrom t id t' child (b :: pages) ∧ t'.describe child = t.describe id ++ chain) ∧
      ¬∃ t' child pages, ctx.DescentFrom t id t' child (e :: pages) := by
  intro a b c d e file store ctx
  let t : Tree := ⟨#[.root, ⟨.orphans, "orphans", some 0, none⟩]⟩
  have hs : ctx.repository.store.Reachable :=
    ((((Store.reachable_ofPages [a]).write _).write _).write _).write _
  have hkeys : store.documents.keys = [a, c, d, e, b] := by decide
  have hwell : ∀ p, store.hasPage p = true → p.isWellFormed = true := by
    intro p hp
    have hmem : p ∈ store.documents.keys := SortedMap.mem_keys.2 hp
    simp only [hkeys, List.mem_cons, List.not_mem_nil, or_false] at hmem
    obtain rfl | rfl | rfl | rfl | rfl := hmem <;> decide
  have hl : ctx.lookup "/orphans" = .ok (1, t) := rfl
  have hrooted : store.Rooted b :=
    ⟨[a], .under (d := (store.documents.get? b).getD default) (by decide) (by decide)
      (.root (d := (store.documents.get? a).getD default) (by decide) (by decide))⟩
  have hcycle : ¬store.Rooted e := by
    have hparent : ∀ {child above} parent, store.ParentLine (child :: above) →
        (store.documents.get? child).bind Document.parent = some parent →
          store.hasPage parent = true → ∃ rest, above = parent :: rest ∧
            store.ParentLine (parent :: rest) := by
      intro child above parent hline hbind hstored
      obtain ⟨document, hd, hp⟩ := Option.bind_eq_some_iff.1 hbind
      exact hline.next hd hp hstored
    rintro ⟨above, hline⟩
    obtain ⟨_, rfl, hd⟩ := hparent d hline (by decide) (by decide)
    obtain ⟨_, rfl, hc⟩ := hparent c hd (by decide) (by decide)
    obtain ⟨_, rfl, _⟩ := hparent d hc (by decide) (by decide)
    simpa using hd.nodup
  obtain ⟨hreached, honce, _⟩ := orphans_lead_to hs rfl hwell (fun _ _ => rfl) (lookup_built hl)
    (show t.kind 1 = .orphans by decide)
  exact ⟨t, 1, hl, honce b hrooted, fun h => hcycle ((hreached e).1 h)⟩

end Context

end WikiMount
