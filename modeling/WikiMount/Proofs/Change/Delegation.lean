import WikiMount.Proofs.Change.Unbatched
import WikiMount.Proofs.Node.TreeShape

/-!
# Changes that letter groups hand over

A letter group hands what is to be added or removed below it over to the directory that it sits in. However
a tree has come about from the root, by adding, resolving and listing and with changes in between that
succeed or fail, its letter groups sit in directories. So the directory is found, it is no letter group
itself, and the change is handed over once at most.
-/

namespace WikiMount

namespace Tree

/-! ## What can be done with a tree -/

/-- An operation on the nodes of a tree. Contexts may differ from one operation to the next, for what is
stored and what is allowed changes meanwhile. -/
inductive Operation
  | insert (parent : Nat) (kind : NodeKind) (segment : String)
  | insertNamed (parent : Nat) (kind : NodeKind)
  | resolve (ctx : Context) (start : Nat) (tokens : List String)
  | members (ctx : Context) (id : Nat)
  | add (ctx : Context) (parent child : Nat) (content : Option Bytes)
  | remove (ctx : Context) (parent child : Nat)
  | move (ctx : Context) (source destination : Nat)

/-- The nodes that the operation is given are in the tree. -/
def Operation.IsOn (t : Tree) : Operation → Prop
  | .insert parent _ _ | .insertNamed parent _ => parent < t.size
  | .resolve _ start _ => start < t.size
  | .members _ id => id < t.size
  | .add _ parent child _ | .remove _ parent child => parent < t.size ∧ child < t.size
  | .move _ source destination => source < t.size ∧ destination < t.size

/-- The tree after an operation, whether or not it succeeds. -/
def after (t : Tree) : Operation → Tree
  | .insert parent kind segment =>
    match t.insert parent kind segment with
    | .ok (_, t') => t'
    | .error _ => t
  | .insertNamed parent kind =>
    match t.insertNamed parent kind with
    | .ok (_, t') => t'
    | .error _ => t
  | .resolve ctx start tokens => (ctx.resolve t start tokens).2
  | .members ctx id => (ctx.members t id).2
  | .add ctx parent child content => (ctx.add t parent child content).tree
  | .remove ctx parent child => (ctx.remove t parent child).tree
  | .move ctx source destination => (ctx.move t source destination).tree

/-- The trees that operations on their own nodes make of the root alone. -/
inductive Reachable : Tree → Prop
  | new : Reachable .new
  | after {t : Tree} {op : Operation} (h : Reachable t) (hop : op.IsOn t) : Reachable (t.after op)

variable {t t' : Tree} {node child dir : Nat}

theorem grown_carryOut (ctx : Context) (t : Tree) (plan : Except ViewError Plan) (touched : List Nat) :
    t.Grown (ctx.carryOut t plan touched).tree := by
  have hremember : ∀ plan : Plan, t.Grown (plan.rememberIn t) := by
    intro plan
    cases plan with
    | saveText node d _ => exact Grown.refl.remember node d
    | _ => exact .refl
  have hforget : ∀ (plan : Plan) (t' : Tree), t.Grown t' → t.Grown (plan.forgetIn t') := by
    intro plan t' h
    cases plan with
    | saveText node _ _ => exact h.forget node
    | _ => exact h
  have htouched : ∀ (ids : List Nat) (t' : Tree), t.Grown t' → t.Grown (ids.foldl forget t') := by
    intro ids
    induction ids with
    | nil => exact fun _ h => h
    | cons id rest ih => exact fun t' h => ih _ (h.forget id)
  unfold Context.carryOut
  split
  · exact .refl
  next plan =>
    dsimp only
    split
    · exact hremember plan
    · exact htouched touched _ (hforget plan _ (hremember plan))

/-- An operation adds nodes to the tree and changes what some of them have read. -/
theorem grown_after {op : Operation} (hop : op.IsOn t) : t.Grown (t.after op) := by
  cases op with
  | insert parent kind segment =>
    simp only [after]
    split
    next hi => exact Grown.refl.insert hop hi
    · exact .refl
  | insertNamed parent kind =>
    simp only [after]
    split
    next hi => exact Grown.refl.insert hop hi
    · exact .refl
  | resolve ctx start tokens => exact Context.resolve_grown hop
  | members ctx id => exact insertAll_grown hop
  | add ctx parent child content => exact grown_carryOut ctx t _ _
  | remove ctx parent child => exact grown_carryOut ctx t _ _
  | move ctx source destination => exact grown_carryOut ctx t _ _

theorem Reachable.built (h : t.Reachable) : t.Built := by
  induction h with
  | new => exact .refl
  | after _ hop ih => exact Grown.trans ih (grown_after hop)

/-! ## Handing over -/

/-- The nodes that adding or removing a child is asked of, each call within the one before: a letter group
hands over to the node that encloses it, unless the child is a scratch file. -/
inductive Calls (t : Tree) (child : Nat) : Nat → List Nat → Prop
  | own {node : Nat}
      (h : (t.kind node).isLetterGroup = false ∨ ∃ name, t.kind child = .scratch name) :
      Calls t child node [node]
  | handOver {node dir : Nat} {calls : List Nat} (hk : (t.kind node).isLetterGroup = true)
      (hchild : ∀ name, t.kind child ≠ .scratch name) (hdir : t.semanticParent? node = some dir)
      (h : Calls t child dir calls) : Calls t child node (node :: calls)

theorem directory_own
    (h : (t.kind node).isLetterGroup = false ∨ ∃ name, t.kind child = .scratch name) :
    t.directory node child = .ok node := by
  unfold directory
  split
  · rfl
  next hnot =>
    obtain hgroup | ⟨name, hchild⟩ := h
    · rw [hgroup, if_neg Bool.false_ne_true]
    · exact absurd hchild (hnot name)

theorem directory_handOver (hk : (t.kind node).isLetterGroup = true)
    (hchild : ∀ name, t.kind child ≠ .scratch name) (hdir : t.semanticParent? node = some dir) :
    t.directory node child = .ok dir := by
  unfold directory
  split
  next hscratch => exact absurd hscratch (hchild _)
  · rw [if_pos hk, hdir]

/-- The call reaches the directory that answers for the change, and is handed over once at most. -/
theorem WellShaped.exists_calls (h : t.WellShaped) (ho : t.Ordered) (node child : Nat) :
    ∃ calls dir, t.Calls child node (calls ++ [dir]) ∧ calls.length ≤ 1 ∧
      t.directory node child = .ok dir ∧ t.directory dir child = .ok dir := by
  by_cases hown : (t.kind node).isLetterGroup = false ∨ ∃ name, t.kind child = .scratch name
  · exact ⟨[], node, .own hown, by simp, directory_own hown, directory_own hown⟩
  · rw [not_or, Bool.not_eq_false, not_exists] at hown
    obtain ⟨hgroup, hchild⟩ := hown
    obtain ⟨view, space, g, hk⟩ := NodeKind.isLetterGroup_iff.1 hgroup
    obtain ⟨dir, _, hdir, henclosing⟩ := h.semanticParent?_of_group ho hk
    have hlast : (t.kind dir).isLetterGroup = false ∨ ∃ name, t.kind child = .scratch name :=
      .inl (by rw [hdir]; rfl)
    exact ⟨[node], dir, .handOver hgroup hchild henclosing (.own hlast), by simp,
      directory_handOver hgroup hchild henclosing, directory_own hlast⟩

end Tree

/-! ## Directories that are not found -/

/-- The error is not that a letter group has no directory. -/
@[simp] def ViewError.Directed (e : ViewError) : Prop := e ≠ .internal .groupWithoutDirectory

theorem ViewError.Plain.directed {e : ViewError} (h : e.Plain) : e.Directed := h.2

namespace Repository

variable (r : Repository)

theorem directed_perform (w : Write) : ErrsOnly ViewError.Directed (r.perform w).1 :=
  (plain_viewed _).mono fun _ => ViewError.Plain.directed

theorem directed_applyFrom (batch : Batch) (done total : Nat) (items : List BatchItem) :
    ErrsOnly ViewError.Directed (r.applyFrom batch done total items).1 := by
  induction items generalizing r done with
  | nil => exact errsOnly_ok ()
  | cons item rest ih =>
    simp only [applyFrom]
    split
    · exact ih _ _
    · exact errsOnly_error.2 (by simp)

theorem directed_renamePage (source destination : Page) (children : List Page) :
    ErrsOnly ViewError.Directed (r.renamePage source destination children).1 := by
  have hrename := r.directed_perform (.rename source destination)
  unfold renamePage
  split
  next e _ he =>
    rw [he] at hrename
    exact hrename
  · exact directed_applyFrom _ _ _ _ _

end Repository

theorem Plan.directed_execute (plan : Plan) (w : Workspace) :
    ErrsOnly ViewError.Directed (plan.execute w).1 := by
  cases plan with
  | write change => exact w.repository.directed_perform change
  | saveText node document text => exact w.repository.directed_perform _
  | batch task items => exact w.repository.directed_applyFrom task 0 items.length items
  | renamePage source destination children => exact w.repository.directed_renamePage _ _ _
  | _ => exact errsOnly_ok ()

namespace Context

variable {ctx : Context} {t : Tree} {node child dir : Nat}

/-- An operation that has a directory to work in does not miss one. -/
theorem directed_carryOut {plan : Except ViewError Plan} (h : ErrsOnly ViewError.Directed plan)
    (touched : List Nat) : ErrsOnly ViewError.Directed (ctx.carryOut t plan touched).answer := by
  unfold carryOut
  split
  · exact errsOnly_error.2 (errsOnly_error.1 h)
  next plan =>
    have hexecute := plan.directed_execute ctx.toWorkspace
    dsimp only
    split
    next he =>
      rw [he] at hexecute
      exact errsOnly_error.2 (errsOnly_error.1 hexecute)
    · exact errsOnly_ok ()

theorem directed_add (hdir : t.directory node child = .ok dir) (content : Option Bytes) :
    ErrsOnly ViewError.Directed (ctx.add t node child content).answer := by
  refine directed_carryOut ?_ _
  unfold planAdd
  split
  · exact errsOnly_error.2 (by simp)
  · rw [hdir]
    exact (ctx.plain_planAddTo t dir child content).mono fun _ => ViewError.Plain.directed

theorem directed_remove (hdir : t.directory node child = .ok dir) :
    ErrsOnly ViewError.Directed (ctx.remove t node child).answer := by
  refine directed_carryOut ?_ _
  unfold planRemove
  rw [hdir]
  exact (ctx.plain_planRemoveFrom t dir child).mono fun _ => ViewError.Plain.directed

end Context

/-- The node tree is well shaped, whatever has been done with it. So the loops over its nodes end with the
answers that the tree gives: the way up to the root, the path along it, and the closest enclosing node that
is not a letter group. Of what is directly below a letter group that is the directory of the group. A
change that a letter group is asked for is handed over to that directory, once at most, and never fails for
want of one. -/
theorem Tree.reachable_shape {t : Tree} (h : t.Reachable) :
    t.WellShaped ∧
    (∀ id, t.Climb id (t.ancestors id) ∧ t.path id = t.pathAlong (t.ancestors id) ∧
      t.Encloses id (t.semanticParent? id)) ∧
    (∀ id group (view : View) space g, (t.node id).parent = some group →
      t.kind group = view.groupKind space g → ∃ dir, (t.node group).parent = some dir ∧
        t.kind dir = .space space view ∧ t.semanticParent? id = some dir) ∧
    ∀ (ctx : Context) node child content,
      (∃ calls dir, t.Calls child node (calls ++ [dir]) ∧ calls.length ≤ 1 ∧
        ctx.add t node child content = ctx.add t dir child content ∧
        ctx.remove t node child = ctx.remove t dir child) ∧
      (ctx.add t node child content).answer ≠ .error (.internal .groupWithoutDirectory) ∧
      (ctx.remove t node child).answer ≠ .error (.internal .groupWithoutDirectory) := by
  have hordered : t.Ordered := h.built.ordered
  have hshape : t.WellShaped := h.built.checked.wellShaped
  refine ⟨hshape, fun id => ⟨hordered.climb id, t.path_eq_pathAlong id, hordered.encloses id⟩,
    fun id group view space g hp hk => hshape.semanticParent?_below_group hordered hp hk,
    fun ctx node child content => ?_⟩
  obtain ⟨calls, dir, hcalls, honce, hdir, hlast⟩ := hshape.exists_calls hordered node child
  refine ⟨⟨calls, dir, hcalls, honce, ?_, ?_⟩, fun he => ?_, fun he => ?_⟩
  · simp only [Context.add, Context.planAdd, hdir, hlast]
  · simp only [Context.remove, Context.planRemove, hdir, hlast]
  · exact Context.directed_add hdir content _ he rfl
  · exact Context.directed_remove hdir _ he rfl

/-- What is found below a letter group is removed from the directory of the space, also after the root was
refused a place in that directory. -/
theorem Tree.reachable_shape_below_group :
    let main := Space.topLevel "Main"
    let ctx : Context := ⟨⟨.ofStore (.ofPages [.inSpace "Abc" main]), none⟩, ⟨.anonymous, .allowAll⟩,
      .standard, .delete⟩
    let found := Tree.new.after (.resolve ctx 0 ["spaces", "Main", "_a_", "Abc"])
    let t := found.after (.insert 2 .root "Root")
    let group : LetterGroup := ⟨"A", by decide, by decide⟩
    t.Reachable ∧ (t.node 4).parent = some 3 ∧ t.kind 3 = .pageGroup main group ∧
      t.kind 2 = .space main .pages ∧ t.semanticParent? 4 = some 2 ∧
      (ctx.remove t 3 4).answer ≠ .error (.internal .groupWithoutDirectory) := by
  intro main ctx found t group
  have hfound : found.size = 5 := by
    dsimp only [found, ctx, main]
    rfl
  have hresolve : (Operation.resolve ctx 0 ["spaces", "Main", "_a_", "Abc"]).IsOn .new :=
    show 0 < Tree.new.size by decide
  have hinsert : (Operation.insert 2 .root "Root").IsOn found := show 2 < found.size by omega
  have hreach : t.Reachable := (Reachable.new.after hresolve).after hinsert
  have hparent : (t.node 4).parent = some 3 := by
    dsimp only [t, found, ctx, main]
    rfl
  have hgroup : t.kind 3 = View.pages.groupKind main group := by
    dsimp only [t, found, ctx, main, group]
    rfl
  have habove : (t.node 3).parent = some 2 := by
    dsimp only [t, found, ctx, main]
    rfl
  obtain ⟨_, _, hbelow, hchange⟩ := Tree.reachable_shape hreach
  obtain ⟨dir, hdir, hspace, henclosing⟩ := hbelow 4 3 .pages main group hparent hgroup
  obtain rfl := Option.some.inj (habove.symm.trans hdir)
  exact ⟨hreach, hparent, hgroup, hspace, henclosing, (hchange ctx 3 4 none).2.2⟩

end WikiMount
