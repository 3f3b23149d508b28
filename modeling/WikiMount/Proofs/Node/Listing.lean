import WikiMount.Proofs.Node.Chains
import WikiMount.Proofs.Node.Offering

/-!
# What a listing adds to the tree

A listing adds a node for each candidate that may stand below the listed node, in the same order, and
leaves every other node as it is. So the members of a node are known from its candidates, and these from
the rules.
-/

namespace WikiMount

namespace Tree

/-- The nodes `ids` of `t'` are what a listing of `candidates` has added below a node of `t`. -/
structure Listed (t : Tree) (parent : Nat) (candidates : List Candidate) (ids : List Nat)
    (t' : Tree) : Prop where
  kept : t.Extends t'
  ordered : t'.Ordered
  sound : ∀ id ∈ ids, id < t'.size ∧ ∃ kind segment, (kind, segment) ∈ candidates ∧
    validate (t.kind parent) kind = .ok () ∧ t'.node id = ⟨kind, segment, some parent, none⟩
  complete : ∀ kind segment, (kind, segment) ∈ candidates →
    validate (t.kind parent) kind = .ok () →
      ∃ id ∈ ids, t'.node id = ⟨kind, segment, some parent, none⟩

variable {t : Tree} {parent : Nat} {candidates : List Candidate}

theorem insertAll_listed (h : t.Ordered) (hparent : parent < t.size) :
    t.Listed parent candidates (t.insertAll parent candidates).1
      (t.insertAll parent candidates).2 := by
  induction candidates generalizing t with
  | nil => exact ⟨.refl t, h, by simp [insertAll], by simp⟩
  | cons candidate rest ih =>
    obtain ⟨kind, segment⟩ := candidate
    cases hi : t.insert parent kind segment with
    | error e =>
      obtain ⟨hkept, hordered, hsound, hcomplete⟩ := ih h hparent
      have hrefused : validate (t.kind parent) kind ≠ .ok () := by
        intro hv
        simp [insert, hv] at hi
      simp only [insertAll, hi]
      refine ⟨hkept, hordered, fun id hid => ?_, fun kind' segment' hmem hv => ?_⟩
      · obtain ⟨hlt, kind', segment', hmem, hv, hnode⟩ := hsound id hid
        exact ⟨hlt, kind', segment', .tail _ hmem, hv, hnode⟩
      · rcases List.mem_cons.1 hmem with heq | hmem
        · obtain ⟨rfl, rfl⟩ := Prod.mk.inj heq
          exact absurd hv hrefused
        · exact hcomplete kind' segment' hmem hv
    | ok found =>
      obtain ⟨id, t₁⟩ := found
      have hext := Extends.insert hi
      have hsize := size_insert hi
      obtain ⟨hkept, hordered, hsound, hcomplete⟩ :=
        ih (h.insert hparent hi) (Nat.lt_of_lt_of_le hparent hext.size_le)
      have hparentKind : t₁.kind parent = t.kind parent :=
        congrArg Node.kind (hext.node parent hparent)
      rw [hparentKind] at hsound hcomplete
      have hlt : id < t₁.size := by omega
      have hnode : (t₁.insertAll parent rest).2.node id = ⟨kind, segment, some parent, none⟩ := by
        rw [hkept.node id hlt, node_insert_self hi]
      simp only [insertAll, hi]
      refine ⟨hext.trans hkept, hordered, fun other hother => ?_, fun kind' segment' hmem hv => ?_⟩
      · rcases List.mem_cons.1 hother with rfl | hother
        · exact ⟨Nat.lt_of_lt_of_le hlt hkept.size_le, kind, segment, .head rest,
            (insert_eq_ok hi).1, hnode⟩
        · obtain ⟨hlt', kind', segment', hmem, hv, hnode'⟩ := hsound other hother
          exact ⟨hlt', kind', segment', .tail _ hmem, hv, hnode'⟩
      · rcases List.mem_cons.1 hmem with heq | hmem
        · obtain ⟨rfl, rfl⟩ := Prod.mk.inj heq
          exact ⟨id, .head _, hnode⟩
        · obtain ⟨other, hother, hnode'⟩ := hcomplete kind' segment' hmem hv
          exact ⟨other, .tail _ hother, hnode'⟩

theorem insertAll_grown (hparent : parent < t.size) : t.Grown (t.insertAll parent candidates).2 := by
  induction candidates generalizing t with
  | nil => exact .refl
  | cons candidate rest ih =>
    obtain ⟨kind, segment⟩ := candidate
    cases hi : t.insert parent kind segment with
    | error e =>
      simp only [insertAll, hi]
      exact ih hparent
    | ok found =>
      have hsize := size_insert hi
      simp only [insertAll, hi]
      exact (Grown.refl.insert hparent hi).trans (ih (by omega))

/-- The nodes that a listing adds, one after the other. -/
theorem insertAll_nodes (h : t.Ordered) (hparent : parent < t.size) :
    (t.insertAll parent candidates).1.map (t.insertAll parent candidates).2.node =
      (candidates.filter fun c => (validate (t.kind parent) c.1).isOk).map fun c =>
        ⟨c.1, c.2, some parent, none⟩ := by
  induction candidates generalizing t with
  | nil => rfl
  | cons candidate rest ih =>
    obtain ⟨kind, segment⟩ := candidate
    cases hi : t.insert parent kind segment with
    | error e =>
      have hrefused : (validate (t.kind parent) kind).isOk = false := by
        cases hv : validate (t.kind parent) kind with
        | error e => rfl
        | ok _ => simp [insert, hv] at hi
      simp only [insertAll, hi, List.filter_cons, hrefused]
      exact ih h hparent
    | ok found =>
      obtain ⟨id, t₁⟩ := found
      have hext := Extends.insert hi
      have hlt : parent < t₁.size := Nat.lt_of_lt_of_le hparent hext.size_le
      have hallowed : (validate (t.kind parent) kind).isOk = true := by
        rw [(insert_eq_ok hi).1]
        rfl
      have hparentKind : t₁.kind parent = t.kind parent :=
        congrArg Node.kind (hext.node parent hparent)
      have hrest := ih (h.insert hparent hi) hlt
      rw [hparentKind] at hrest
      have hid : id < t₁.size := by
        have := size_insert hi
        omega
      have hnode : (t₁.insertAll parent rest).2.node id = ⟨kind, segment, some parent, none⟩ := by
        have hlisted : t₁.Listed parent rest _ _ := insertAll_listed (h.insert hparent hi) hlt
        rw [hlisted.kept.node id hid, node_insert_self hi]
      simp only [insertAll, hi, List.filter_cons, hallowed, if_pos, List.map_cons, hnode, hrest]

end Tree

namespace Context

variable {ctx : Context} {t t' : Tree} {id child : Nat} {ids : List Nat}

theorem members_listed (h : t.Ordered) (hid : id < t.size) (hm : ctx.members t id = (ids, t')) :
    t.Listed id (ctx.candidates t id) ids t' := by
  have hlisted : t.Listed id (ctx.candidates t id) (ctx.members t id).1 (ctx.members t id).2 :=
    Tree.insertAll_listed h hid
  rwa [hm] at hlisted

theorem members_nodes (h : t.Ordered) (hid : id < t.size) (hm : ctx.members t id = (ids, t')) :
    ids.map t'.node =
      ((ctx.candidates t id).filter fun c => (Tree.validate (t.kind id) c.1).isOk).map fun c =>
        ⟨c.1, c.2, some id, none⟩ := by
  have hnodes : (ctx.members t id).1.map (ctx.members t id).2.node = _ := Tree.insertAll_nodes h hid
  rwa [hm] at hnodes

/-- A member of a node is offered by a rule. -/
theorem members_sound (h : t.Ordered) (hid : id < t.size) (hm : ctx.members t id = (ids, t'))
    (hchild : child ∈ ids) : ∃ kind segment, ctx.Offers t id (t.kind id) kind segment ∧
      Tree.validate (t.kind id) kind = .ok () ∧
      t'.node child = ⟨kind, segment, some id, none⟩ := by
  obtain ⟨_, kind, segment, hmem, hv, hnode⟩ := (members_listed h hid hm).sound child hchild
  exact ⟨kind, segment, mem_candidates_iff.1 hmem, hv, hnode⟩

/-- What a rule offers is a member if it may stand below the node. -/
theorem members_complete (h : t.Ordered) (hid : id < t.size) (hm : ctx.members t id = (ids, t'))
    {kind : NodeKind} {segment : String} (ho : ctx.Offers t id (t.kind id) kind segment)
    (hv : Tree.validate (t.kind id) kind = .ok ()) :
    ∃ child ∈ ids, t'.node child = ⟨kind, segment, some id, none⟩ :=
  (members_listed h hid hm).complete kind segment (mem_candidates_iff.2 ho) hv

end Context

end WikiMount
