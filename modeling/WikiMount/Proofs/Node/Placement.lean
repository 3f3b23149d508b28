import WikiMount.Proofs.Node.Decoding
import WikiMount.Proofs.Storage.Writes
import WikiMount.Service

/-!
# Where resolving puts nodes

In a tree that only resolving has added to, a page has a space, the files of a page sit right below
it and a letter group of pages right below its space, and no node has read a document yet. One step
adds one node and keeps all others, so a run over the tokens of a path keeps the property from the tree
of the root alone on.
-/

namespace WikiMount

/-- What a node has in common with the node it was decoded below. -/
def NodeKind.FitsBelow (parent : NodeKind) : NodeKind → Prop
  | .page p => p.space.isSome = true
  | .attachment a => parent = .page a.page
  | .wikiFile p _ => parent = .page p
  | .pageGroup s _ => parent = .space s .pages
  | _ => True

/-- The letter groups of a space in a view. -/
def View.groupKind : View → Space → LetterGroup → NodeKind
  | .pages => .pageGroup
  | .attachments => .attachmentGroup

/-- The page that a file of a page belongs to. -/
def NodeKind.holder? : NodeKind → Option Page
  | .attachment a => some a.page
  | .wikiFile p _ => some p
  | _ => none

/-- A file of a page sits below that page. -/
theorem NodeKind.FitsBelow.of_held {parent kind : NodeKind} {page : Page} (h : parent.FitsBelow kind)
    (hk : kind.holder? = some page) : parent = .page page := by
  cases kind <;> cases hk <;> exact h

/-- The trees that resolving makes from the root alone. -/
structure Tree.Resolved (t : Tree) : Prop where
  nonempty : 0 < t.size
  /-- Only the root has no parent. -/
  root : ∀ id, (t.node id).parent = none → t.kind id = .root
  parent_lt : ∀ id p, (t.node id).parent = some p → p < id
  fits : ∀ id p, (t.node id).parent = some p → (t.kind p).FitsBelow (t.kind id)
  unread : ∀ id, (t.node id).snapshot = none

namespace Tree

variable {t t' : Tree} {id child parent : Nat} {kind : NodeKind} {segment : String}

theorem kind_insert (h : t.insert parent kind segment = .ok (id, t')) (other : Nat) :
    t'.kind other = if other = id then kind else t.kind other := by
  simp only [Tree.kind, node_insert h]
  split <;> rfl

theorem node_insert_self (h : t.insert parent kind segment = .ok (id, t')) :
    t'.node id = ⟨kind, segment, some parent, none⟩ := by
  rw [node_insert h, if_pos rfl]

theorem kind_insert_self (h : t.insert parent kind segment = .ok (id, t')) : t'.kind id = kind :=
  congrArg Node.kind (node_insert_self h)

theorem size_insert (h : t.insert parent kind segment = .ok (id, t')) :
    id = t.size ∧ t'.size = t.size + 1 := by
  obtain ⟨_, rfl, rfl⟩ := insert_eq_ok h
  simp [size]

/-- A page that has a space may stand below any node. -/
theorem validate_page {page : Page} {space : Space} (h : page.space = some space)
    (parent : NodeKind) : validate parent (.page page) = .ok () := by
  simp only [validate, Page.requireSpace_eq_ok.2 h]

/-- Every node of `t` is a node of `t'`. -/
structure Extends (t t' : Tree) : Prop where
  size_le : t.size ≤ t'.size
  node : ∀ id, id < t.size → t'.node id = t.node id

theorem Extends.refl (t : Tree) : t.Extends t := ⟨Nat.le_refl _, fun _ _ => rfl⟩

theorem Extends.trans {t'' : Tree} (h : t.Extends t') (h' : t'.Extends t'') : t.Extends t'' where
  size_le := Nat.le_trans h.size_le h'.size_le
  node id hid := (h'.node id (Nat.lt_of_lt_of_le hid h.size_le)).trans (h.node id hid)

theorem Extends.insert (h : t.insert parent kind segment = .ok (id, t')) : t.Extends t' := by
  obtain ⟨rfl, hsize⟩ := size_insert h
  refine ⟨by omega, fun other hother => ?_⟩
  rw [node_insert h, if_neg (by omega)]

/-- A number from outside the tree stands for the root, which has no parent. -/
theorem lt_size_of_parent {p : Nat} (h : (t.node id).parent = some p) : id < t.size := by
  cases hn : t.nodes[id]? with
  | none => simp [node, hn, Node.root] at h
  | some n => exact (Array.getElem?_eq_some_iff.1 hn).1

theorem lt_size_of_ne_root (h : t.kind id ≠ .root) : id < t.size := by
  cases hn : t.nodes[id]? with
  | none => simp [Tree.kind, node, hn, Node.root] at h
  | some n => exact (Array.getElem?_eq_some_iff.1 hn).1

namespace Resolved

theorem new : Tree.new.Resolved := by
  have hnode : ∀ id, Tree.new.node id = .root := by
    intro id
    cases id <;> rfl
  refine ⟨by decide, fun id _ => ?_, fun id p hp => ?_, fun id p hp => ?_, fun id => ?_⟩
  · rw [Tree.kind, hnode]
    rfl
  · rw [hnode] at hp
    cases hp
  · rw [hnode] at hp
    cases hp
  · rw [hnode]
    rfl

theorem insert (h : t.Resolved) (hp : parent < t.size)
    (hi : t.insert parent kind segment = .ok (id, t')) (hf : (t.kind parent).FitsBelow kind) :
    t'.Resolved := by
  obtain ⟨rfl, hsize⟩ := size_insert hi
  refine ⟨by omega, fun other ho => ?_, fun other p ho => ?_, fun other p ho => ?_,
    fun other => ?_⟩
  · rw [node_insert hi] at ho
    rw [kind_insert hi]
    split at ho
    · cases ho
    next hne => rw [if_neg hne]; exact h.root other ho
  · rw [node_insert hi] at ho
    split at ho
    next hother =>
      obtain rfl := Option.some.inj ho
      omega
    · exact h.parent_lt other p ho
  · rw [node_insert hi] at ho
    simp only [kind_insert hi]
    split at ho
    next hother =>
      obtain rfl := Option.some.inj ho
      rwa [if_pos hother, if_neg (by omega)]
    next hother =>
      have hlt := lt_size_of_parent ho
      have hpar := h.parent_lt other p ho
      rw [if_neg hother, if_neg (by omega)]
      exact h.fits other p ho
  · rw [node_insert hi]
    split
    · rfl
    · exact h.unread other

theorem parent_of_ne_root (h : t.Resolved) (hk : t.kind id ≠ .root) :
    ∃ p, (t.node id).parent = some p :=
  Option.ne_none_iff_exists'.1 fun hn => hk (h.root id hn)

theorem space_of_page (h : t.Resolved) {page : Page} (hk : t.kind id = .page page) :
    page.space.isSome = true := by
  have hne : t.kind id ≠ .root := by simp [hk]
  obtain ⟨p, hp⟩ := h.parent_of_ne_root hne
  have hfits := h.fits id p hp
  rwa [hk] at hfits

/-- A file of a page sits right below the page that holds it. -/
theorem parent_of_held (h : t.Resolved) {page : Page} (hk : (t.kind id).holder? = some page) :
    ∃ p, (t.node id).parent = some p ∧ t.kind p = .page page := by
  have hne : t.kind id ≠ .root := by
    intro hroot
    rw [hroot] at hk
    cases hk
  obtain ⟨p, hp⟩ := h.parent_of_ne_root hne
  exact ⟨p, hp, (h.fits id p hp).of_held hk⟩

theorem parent_of_attachment (h : t.Resolved) {a : Attachment} (hk : t.kind id = .attachment a) :
    ∃ p, (t.node id).parent = some p ∧ t.kind p = .page a.page :=
  h.parent_of_held (by rw [hk]; rfl)

/-- A page whose document a node shows has a space. -/
theorem space_of_document (h : t.Resolved) {page : Page}
    (hk : (t.kind id).documentPage? = some page) : page.space.isSome = true := by
  cases hkind : t.kind id with
  | page _ =>
    rw [hkind] at hk
    exact Option.some.inj hk ▸ h.space_of_page hkind
  | wikiFile shown format =>
    have hheld : (t.kind id).holder? = some shown := by rw [hkind]; rfl
    obtain ⟨_, _, hparent⟩ := h.parent_of_held hheld
    rw [hkind] at hk
    exact Option.some.inj hk ▸ h.space_of_page hparent
  | _ =>
    rw [hkind] at hk
    cases hk

/-- A letter group sits right below the space whose pages it collects. -/
theorem parent_of_pageGroup (h : t.Resolved) {space : Space} {group : LetterGroup}
    (hk : t.kind id = .pageGroup space group) :
    ∃ p, (t.node id).parent = some p ∧ t.kind p = .space space .pages := by
  have hne : t.kind id ≠ .root := by simp [hk]
  obtain ⟨p, hp⟩ := h.parent_of_ne_root hne
  have hfits := h.fits id p hp
  rw [hk] at hfits
  exact ⟨p, hp, hfits⟩

/-- A tree that resolving has made reads documents from the repository. -/
theorem document_eq (h : t.Resolved) {page : Page} (hk : (t.kind id).documentPage? = some page)
    (r : Repository) : t.document r id = viewed (r.document page) := by
  simp only [Tree.document, hk, h.unread id]
  cases r.document page <;> rfl

end Resolved

end Tree

namespace Context

variable {ctx : Context} {t t' : Tree} {id child : Nat} {token : String} {last : Bool}

theorem step_eq_ok :
    ctx.step t id token last = .ok (child, t') ↔
      ∃ kind, ctx.Decodes token last (t.kind id) kind ∧ t.insert id kind token = .ok (child, t') := by
  constructor
  · intro h
    cases hd : ctx.decode (t.kind id) (t.path id) token last with
    | error e => simp [step, hd] at h
    | ok kind => exact ⟨kind, decode_eq_ok_iff.1 hd, by simpa [step, hd] using h⟩
  · rintro ⟨kind, hk, h⟩
    have hd : ctx.decode (t.kind id) (t.path id) token last = .ok kind := decode_eq_ok_iff.2 hk
    simpa [step, hd] using h

/-- What a rule finds fits below the node it was found at, provided that it may stand there. -/
theorem Decodes.fitsBelow {parent kind : NodeKind} (h : ctx.Decodes token last parent kind)
    (hv : Tree.validate parent kind = .ok ()) : parent.FitsBelow kind := by
  cases kind with
  | page p =>
    simp only [Tree.validate] at hv
    split at hv
    next space hs => simp [NodeKind.FitsBelow, Page.requireSpace_eq_ok.1 hs]
    · cases hv
  | attachment a =>
    cases h with
    | view _ hview => obtain ⟨_, h⟩ | h := decodeBaseView_ok hview <;> cases h
    | attachment => rfl
  | wikiFile p format =>
    cases h with
    | view _ hview => obtain ⟨_, h⟩ | h := decodeBaseView_ok hview <;> cases h
    | wikiFile => rfl
  | pageGroup space group =>
    simp only [Tree.validate] at hv
    split at hv
    next hparent => exact hparent
    · cases hv
  | _ => trivial

theorem step_resolved (h : t.Resolved) (hid : id < t.size)
    (hs : ctx.step t id token last = .ok (child, t')) :
    t'.Resolved ∧ t.Extends t' ∧ child < t'.size := by
  obtain ⟨kind, hk, hi⟩ := step_eq_ok.1 hs
  obtain ⟨rfl, hsize⟩ := Tree.size_insert hi
  exact ⟨h.insert hid hi (hk.fitsBelow (Tree.insert_eq_ok hi).1), .insert hi, by omega⟩

/-- Following tokens keeps the nodes of a tree and the properties of a resolved one. -/
theorem resolve_resolved {tokens : List String} (h : t.Resolved) (hid : id < t.size)
    (hr : ctx.resolve t id tokens = (.ok child, t')) :
    t'.Resolved ∧ t.Extends t' ∧ child < t'.size := by
  induction tokens generalizing t id with
  | nil =>
    simp only [resolve, Prod.mk.injEq, Except.ok.injEq] at hr
    obtain ⟨rfl, rfl⟩ := hr
    exact ⟨h, .refl t, hid⟩
  | cons token rest ih =>
    simp only [resolve] at hr
    split at hr
    · simp at hr
    next next t₁ hs =>
      obtain ⟨h₁, hext, hlt⟩ := step_resolved h hid hs
      obtain ⟨h', hext', hlt'⟩ := ih h₁ hlt hr
      exact ⟨h', hext.trans hext', hlt'⟩

theorem resolvePath_eq_ok_iff {path : String} :
    ctx.resolvePath t path = (.ok child, t') ↔
      ∃ tokens, Path.tokens path = .ok tokens ∧ ctx.resolve t 0 tokens = (.ok child, t') := by
  simp only [resolvePath]
  cases Path.tokens path <;> simp

theorem lookup_eq_ok_iff {path : String} :
    ctx.lookup path = .ok (id, t) ↔ ctx.resolvePath .new path = (.ok id, t) := by
  simp only [lookup]
  rcases ctx.resolvePath .new path with ⟨answer, t'⟩
  cases answer <;> simp

theorem resolvePath_resolved {path : String} (h : t.Resolved)
    (hr : ctx.resolvePath t path = (.ok child, t')) :
    t'.Resolved ∧ t.Extends t' ∧ child < t'.size := by
  obtain ⟨tokens, _, hr⟩ := resolvePath_eq_ok_iff.1 hr
  exact resolve_resolved h h.nonempty hr

theorem lookup_resolved {path : String} (hl : ctx.lookup path = .ok (id, t)) :
    t.Resolved ∧ id < t.size := by
  obtain ⟨h, _, hlt⟩ := resolvePath_resolved .new (lookup_eq_ok_iff.1 hl)
  exact ⟨h, hlt⟩

/-- The second path is looked up in the tree that the first one has left. -/
theorem lookupTwo_eq_ok {path other : String} {otherId : Nat}
    (hl : ctx.lookupTwo path other = .ok (id, otherId, t)) :
    ∃ t₁, ctx.lookup path = .ok (id, t₁) ∧ ctx.resolvePath t₁ other = (.ok otherId, t) := by
  simp only [lookupTwo] at hl
  split at hl
  · cases hl
  next first t₁ hf =>
    split at hl
    next second t₂ hs =>
      obtain ⟨rfl, hsecond⟩ := Prod.mk.inj (Except.ok.inj hl)
      obtain ⟨rfl, rfl⟩ := Prod.mk.inj hsecond
      exact ⟨t₁, hf, hs⟩
    · cases hl

theorem lookupTwo_resolved {path other : String} {otherId : Nat}
    (hl : ctx.lookupTwo path other = .ok (id, otherId, t)) :
    t.Resolved ∧ id < t.size ∧ otherId < t.size := by
  obtain ⟨t₁, hfirst, hsecond⟩ := lookupTwo_eq_ok hl
  obtain ⟨h₁, hlt⟩ := lookup_resolved hfirst
  obtain ⟨h₂, hext, hlt'⟩ := resolvePath_resolved h₁ hsecond
  exact ⟨h₂, Nat.lt_of_lt_of_le hlt hext.size_le, hlt'⟩

/-- What was found first stays what it is. -/
theorem lookupTwo_source {path other : String} {otherId : Nat}
    (hl : ctx.lookupTwo path other = .ok (id, otherId, t)) :
    ∃ t₁, ctx.lookup path = .ok (id, t₁) ∧ t₁.kind id = t.kind id := by
  obtain ⟨t₁, hfirst, hsecond⟩ := lookupTwo_eq_ok hl
  obtain ⟨h₁, hlt⟩ := lookup_resolved hfirst
  obtain ⟨_, hext, _⟩ := resolvePath_resolved h₁ hsecond
  exact ⟨t₁, hfirst, (congrArg Node.kind (hext.node id hlt)).symm⟩

end Context

end WikiMount
