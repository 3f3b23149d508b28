import WikiMount.Proofs.Node.Listing

/-!
# The shape of the node tree

A node is added below one that is there, and the two are checked against each other. Nothing that happens
to a tree later on changes the place of a node or its kind, so all nodes but the root are still as they
were checked: each has a parent before it, pages have spaces, spaces are well formed, and letter groups sit
in the directory that they group. The loops that follow parents end because a parent comes before its
child.
-/

namespace WikiMount

theorem NodeKind.isLetterGroup_iff {kind : NodeKind} : kind.isLetterGroup = true ↔
    ∃ (view : View) (space : Space) (g : LetterGroup), kind = view.groupKind space g := by
  constructor
  · intro h
    cases kind with
    | pageGroup space g => exact ⟨.pages, space, g, rfl⟩
    | attachmentGroup space g => exact ⟨.attachments, space, g, rfl⟩
    | _ => cases h
  · rintro ⟨view, space, g, rfl⟩
    cases view <;> rfl

namespace Tree

variable {t t' : Tree} {id parent group dir : Nat} {kind : NodeKind} {segment : String}
  {space : Space} {view : View} {g : LetterGroup} {page : Page}

/-! ## What is checked -/

theorem space_of_validate (h : validate kind (.page page) = .ok ()) : page.space.isSome = true := by
  simp only [validate] at h
  split at h
  next space hspace => rw [Page.requireSpace_eq_ok.1 hspace]; rfl
  · cases h

theorem wellFormed_of_validate (h : validate kind (.space space view) = .ok ()) :
    space.isWellFormed = true := by
  simp only [validate] at h
  split at h
  next hwell => exact hwell
  · cases h

theorem directory_of_validate (h : validate kind (view.groupKind space g) = .ok ()) :
    kind = .space space view := by
  cases view <;>
  · simp only [View.groupKind, validate] at h
    split at h
    next hparent => exact hparent
    · cases h

/-- A node has a parent that comes before it, and has been checked against it. -/
def CheckedAt (t : Tree) (id : Nat) : Prop :=
  ∃ parent, (t.node id).parent = some parent ∧ parent < id ∧
    validate (t.kind parent) (t.kind id) = .ok ()

/-- The root is at the top, and all other nodes have been checked. -/
structure Checked (t : Tree) : Prop where
  nonempty : 0 < t.size
  kind_root : t.kind 0 = .root
  parent_root : (t.node 0).parent = none
  below : ∀ id, id < t.size → id ≠ 0 → t.CheckedAt id

theorem KeepsPlaces.checkedAt (h : t.KeepsPlaces t') (hid : id < t.size) (hc : t.CheckedAt id) :
    t'.CheckedAt id := by
  obtain ⟨parent, hparent, hlt, hv⟩ := hc
  refine ⟨parent, (h.parent id hid).trans hparent, hlt, ?_⟩
  rwa [h.kind id hid, h.kind parent (Nat.lt_trans hlt hid)]

theorem checked_new : new.Checked where
  nonempty := by decide
  kind_root := rfl
  parent_root := rfl
  below id hid hne := by
    have hone : new.size = 1 := rfl
    omega

theorem Checked.insert (h : t.Checked) (hparent : parent < t.size)
    (hi : t.insert parent kind segment = .ok (id, t')) : t'.Checked := by
  obtain ⟨rfl, hsize⟩ := size_insert hi
  have hkept : t.KeepsPlaces t' := (Extends.insert hi).keepsPlaces
  refine ⟨by omega, (hkept.kind 0 h.nonempty).trans h.kind_root,
    (hkept.parent 0 h.nonempty).trans h.parent_root, fun other hother hne => ?_⟩
  by_cases hnew : other = t.size
  · subst hnew
    refine ⟨parent, congrArg Node.parent (node_insert_self hi), hparent, ?_⟩
    rw [hkept.kind parent hparent, kind_insert_self hi]
    exact (insert_eq_ok hi).1
  · have hold : other < t.size := by omega
    exact hkept.checkedAt hold (h.below other hold hne)

theorem Checked.of_keepsPlaces (h : t.Checked) (hkept : t.KeepsPlaces t') (hsize : t'.size = t.size) :
    t'.Checked where
  nonempty := hsize ▸ h.nonempty
  kind_root := (hkept.kind 0 h.nonempty).trans h.kind_root
  parent_root := (hkept.parent 0 h.nonempty).trans h.parent_root
  below id hid hne := hkept.checkedAt (hsize ▸ hid) (h.below id (hsize ▸ hid) hne)

theorem Grown.checked (h : t.Grown t') (hc : t.Checked) : t'.Checked := by
  induction h with
  | refl => exact hc
  | insert _ hparent hi ih => exact ih.insert hparent hi
  | remember _ id d ih => exact ih.of_keepsPlaces (keepsPlaces_remember _ id d) (size_remember _ id d)
  | forget _ id ih => exact ih.of_keepsPlaces (keepsPlaces_forget _ id) (size_forget _ id)

theorem Built.checked (h : t.Built) : t.Checked := Grown.checked h checked_new

theorem Checked.checkedAt (h : t.Checked) (hk : t.kind id ≠ .root) : t.CheckedAt id := by
  refine h.below id (lt_size_of_ne_root hk) ?_
  rintro rfl
  exact hk h.kind_root

/-! ## What follows -/

/-- The shape of a tree that is used as it is meant to be. -/
structure WellShaped (t : Tree) : Prop where
  root : 0 < t.size ∧ (t.node 0).parent = none
  below : ∀ id, id < t.size → id ≠ 0 → ∃ parent, (t.node id).parent = some parent ∧ parent < id
  page : ∀ id page, t.kind id = .page page → page.space.isSome = true
  space : ∀ id space view, t.kind id = .space space view → space.isWellFormed = true
  /-- A letter group sits directly in the directory of its space, in its own view. -/
  group : ∀ id (view : View) space g, t.kind id = view.groupKind space g →
    ∃ dir, (t.node id).parent = some dir ∧ t.kind dir = .space space view

theorem Checked.wellShaped (h : t.Checked) : t.WellShaped where
  root := ⟨h.nonempty, h.parent_root⟩
  below id hid hne := by
    obtain ⟨parent, hparent, hlt, _⟩ := h.below id hid hne
    exact ⟨parent, hparent, hlt⟩
  page id page hk := by
    have hne : t.kind id ≠ .root := by simp [hk]
    obtain ⟨_, _, _, hv⟩ := h.checkedAt hne
    exact space_of_validate (hk ▸ hv)
  space id space view hk := by
    have hne : t.kind id ≠ .root := by simp [hk]
    obtain ⟨_, _, _, hv⟩ := h.checkedAt hne
    exact wellFormed_of_validate (hk ▸ hv)
  group id view space g hk := by
    have hne : t.kind id ≠ .root := by cases view <;> simp [hk, View.groupKind]
    obtain ⟨dir, hparent, _, hv⟩ := h.checkedAt hne
    exact ⟨dir, hparent, directory_of_validate (hk ▸ hv)⟩

/-! ## Following parents -/

/-- The loop that goes from a node to its parent, and on from there, until there is no parent. -/
inductive Climb (t : Tree) : Nat → List Nat → Prop
  | top {id : Nat} (hp : (t.node id).parent = none) : Climb t id [id]
  | up {id parent : Nat} {way : List Nat} (hp : (t.node id).parent = some parent)
      (h : Climb t parent way) : Climb t id (id :: way)

/-- The search for the closest enclosing node that is not a letter group. -/
inductive Encloses (t : Tree) : Nat → Option Nat → Prop
  | top {id : Nat} (hp : (t.node id).parent = none) : Encloses t id none
  | parent {id parent : Nat} (hp : (t.node id).parent = some parent)
      (hk : (t.kind parent).isLetterGroup = false) : Encloses t id (some parent)
  | group {id parent : Nat} {answer : Option Nat} (hp : (t.node id).parent = some parent)
      (hk : (t.kind parent).isLetterGroup = true) (h : Encloses t parent answer) :
      Encloses t id answer

/-- The path that the nodes on the way up from a node spell. -/
def pathAlong (t : Tree) (way : List Nat) : String :=
  let path := String.join (way.reverse.map fun a => (t.node a).relativePath)
  if path = "" then "/" else path

theorem path_eq_pathAlong (t : Tree) (id : Nat) : t.path id = t.pathAlong (t.ancestors id) := rfl

/-- The way up ends at the root. -/
theorem Ordered.climb (h : t.Ordered) (id : Nat) : t.Climb id (t.ancestors id) := by
  induction id using Nat.strongRecOn with
  | ind id ih =>
    cases hp : (t.node id).parent with
    | none =>
      rw [ancestors_of_no_parent hp]
      exact .top hp
    | some parent =>
      rw [h.ancestors_of_parent hp]
      exact .up hp (ih parent (h id parent hp))

theorem semanticParent?_of_no_parent (hp : (t.node id).parent = none) : t.semanticParent? id = none := by
  rw [semanticParent?, ancestors_of_no_parent hp]
  rfl

theorem Ordered.semanticParent?_of_parent (h : t.Ordered) (hp : (t.node id).parent = some parent) :
    t.semanticParent? id =
      if (t.kind parent).isLetterGroup then t.semanticParent? parent else some parent := by
  obtain ⟨rest, hrest⟩ := exists_ancestors_eq_cons h parent
  rw [semanticParent?, semanticParent?, h.ancestors_of_parent hp, hrest, List.tail_cons,
    List.tail_cons, List.find?_cons]
  cases (t.kind parent).isLetterGroup <;> rfl

theorem Ordered.encloses (h : t.Ordered) (id : Nat) : t.Encloses id (t.semanticParent? id) := by
  induction id using Nat.strongRecOn with
  | ind id ih =>
    cases hp : (t.node id).parent with
    | none =>
      rw [semanticParent?_of_no_parent hp]
      exact .top hp
    | some parent =>
      rw [h.semanticParent?_of_parent hp]
      cases hk : (t.kind parent).isLetterGroup with
      | false => exact .parent hp hk
      | true => exact .group hp hk (ih parent (h id parent hp))

/-- A letter group is enclosed by the directory that it sits in. -/
theorem WellShaped.semanticParent?_of_group (h : t.WellShaped) (ho : t.Ordered)
    (hk : t.kind group = view.groupKind space g) :
    ∃ dir, (t.node group).parent = some dir ∧ t.kind dir = .space space view ∧
      t.semanticParent? group = some dir := by
  obtain ⟨dir, hp, hdir⟩ := h.group group view space g hk
  refine ⟨dir, hp, hdir, ?_⟩
  rw [ho.semanticParent?_of_parent hp, hdir]
  rfl

/-- What is directly below a letter group is enclosed by the directory as well. -/
theorem WellShaped.semanticParent?_below_group (h : t.WellShaped) (ho : t.Ordered)
    (hp : (t.node id).parent = some group) (hk : t.kind group = view.groupKind space g) :
    ∃ dir, (t.node group).parent = some dir ∧ t.kind dir = .space space view ∧
      t.semanticParent? id = some dir := by
  obtain ⟨dir, hparent, hdir, henclosing⟩ := h.semanticParent?_of_group ho hk
  refine ⟨dir, hparent, hdir, ?_⟩
  rw [ho.semanticParent?_of_parent hp, NodeKind.isLetterGroup_iff.2 ⟨view, space, g, hk⟩, if_pos rfl,
    henclosing]

end Tree

end WikiMount
