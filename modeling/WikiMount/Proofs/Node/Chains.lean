import WikiMount.Proofs.Node.Placement
import WikiMount.Proofs.Text.Paths

/-!
# The way from the root to a node

A node comes after its parent, so the way up from a node ends within as many steps as its number says.
This holds of every tree that is built from the root, whatever nodes are added and whatever documents are
kept or dropped meanwhile. The chain of an added node is the chain of its parent and then the node, and a
tree that grows keeps the chains it had. Resolving appends the tokens it follows to the chain of the node
it starts from.
-/

namespace WikiMount

namespace Tree

/-- Every node comes after its parent. -/
def Ordered (t : Tree) : Prop := ∀ id parent, (t.node id).parent = some parent → parent < id

variable {t t' : Tree} {id n m parent : Nat} {kind : NodeKind} {segment : String}

theorem Resolved.ordered (h : t.Resolved) : t.Ordered := h.parent_lt

theorem Ordered.insert (h : t.Ordered) (hparent : parent < t.size)
    (hi : t.insert parent kind segment = .ok (id, t')) : t'.Ordered := by
  obtain ⟨rfl, _⟩ := size_insert hi
  intro other p hp
  rw [node_insert hi] at hp
  split at hp
  next hother =>
    obtain rfl := Option.some.inj hp
    omega
  · exact h other p hp

/-! ## Growing -/

/-- What becomes of a tree as nodes are added and documents are kept for nodes or dropped. -/
inductive Grown (t : Tree) : Tree → Prop
  | refl : Grown t t
  | insert {mid t' : Tree} {parent id : Nat} {kind : NodeKind} {segment : String} (h : Grown t mid)
      (hparent : parent < mid.size) (hi : mid.insert parent kind segment = .ok (id, t')) : Grown t t'
  | remember {mid : Tree} (h : Grown t mid) (id : Nat) (d : Document) : Grown t (mid.remember id d)
  | forget {mid : Tree} (h : Grown t mid) (id : Nat) : Grown t (mid.forget id)

/-- The trees that are built from the root alone. -/
def Built (t : Tree) : Prop := new.Grown t

theorem Grown.trans {t'' : Tree} (h : t.Grown t') (h' : t'.Grown t'') : t.Grown t'' := by
  induction h' with
  | refl => exact h
  | insert _ hparent hi ih => exact ih.insert hparent hi
  | remember _ id d ih => exact ih.remember id d
  | forget _ id ih => exact ih.forget id

/-- Every node of `t` is in `t'` at the same place and of the same kind. -/
structure KeepsPlaces (t t' : Tree) : Prop where
  size_le : t.size ≤ t'.size
  kind : ∀ id, id < t.size → t'.kind id = t.kind id
  parent : ∀ id, id < t.size → (t'.node id).parent = (t.node id).parent

theorem Extends.keepsPlaces (h : t.Extends t') : t.KeepsPlaces t' where
  size_le := h.size_le
  kind id hid := congrArg Node.kind (h.node id hid)
  parent id hid := congrArg Node.parent (h.node id hid)

theorem KeepsPlaces.trans {t'' : Tree} (h : t.KeepsPlaces t') (h' : t'.KeepsPlaces t'') :
    t.KeepsPlaces t'' where
  size_le := Nat.le_trans h.size_le h'.size_le
  kind id hid := (h'.kind id (Nat.lt_of_lt_of_le hid h.size_le)).trans (h.kind id hid)
  parent id hid := (h'.parent id (Nat.lt_of_lt_of_le hid h.size_le)).trans (h.parent id hid)

@[simp] theorem size_remember (t : Tree) (id : Nat) (d : Document) : (t.remember id d).size = t.size := by
  simp [remember, size]

@[simp] theorem size_forget (t : Tree) (id : Nat) : (t.forget id).size = t.size := by
  simp [forget, size]

/-- A change to what a node has read leaves every node at its place. -/
theorem keepsPlaces_modify (t : Tree) (id : Nat) {f : Node → Node}
    (hf : ∀ n, (f n).kind = n.kind ∧ (f n).parent = n.parent) :
    t.KeepsPlaces ⟨t.nodes.modify id f⟩ := by
  have hnode : ∀ other, (Tree.mk (t.nodes.modify id f)).node other =
      if id = other ∧ other < t.size then f (t.node other) else t.node other := by
    intro other
    simp only [node, size, Array.getElem?_modify]
    by_cases hother : other < t.nodes.size
    · by_cases hid : id = other <;> simp [hother, hid]
    · simp [hother]
  refine ⟨by simp [size], fun other _ => ?_, fun other _ => ?_⟩
  · rw [kind, kind, hnode]
    split
    · exact (hf _).1
    · rfl
  · rw [hnode]
    split
    · exact (hf _).2
    · rfl

theorem keepsPlaces_remember (t : Tree) (id : Nat) (d : Document) : t.KeepsPlaces (t.remember id d) :=
  t.keepsPlaces_modify id fun _ => ⟨rfl, rfl⟩

theorem keepsPlaces_forget (t : Tree) (id : Nat) : t.KeepsPlaces (t.forget id) :=
  t.keepsPlaces_modify id fun _ => ⟨rfl, rfl⟩

theorem KeepsPlaces.ordered (h : t.KeepsPlaces t') (hsize : t'.size = t.size) (ho : t.Ordered) :
    t'.Ordered := by
  intro id parent hp
  have hid : id < t.size := hsize ▸ lt_size_of_parent hp
  exact ho id parent ((h.parent id hid).symm.trans hp)

theorem Grown.keepsPlaces (h : t.Grown t') : t.KeepsPlaces t' := by
  induction h with
  | refl => exact (Extends.refl t).keepsPlaces
  | insert _ _ hi ih => exact ih.trans (Extends.insert hi).keepsPlaces
  | remember _ id d ih => exact ih.trans (keepsPlaces_remember _ id d)
  | forget _ id ih => exact ih.trans (keepsPlaces_forget _ id)

theorem Grown.ordered (h : t.Grown t') (ho : t.Ordered) : t'.Ordered := by
  induction h with
  | refl => exact ho
  | insert _ hparent hi ih => exact ih.insert hparent hi
  | remember _ id d ih => exact (keepsPlaces_remember _ id d).ordered (size_remember _ id d) ih
  | forget _ id ih => exact (keepsPlaces_forget _ id).ordered (size_forget _ id) ih

theorem Built.ordered (h : t.Built) : t.Ordered := Grown.ordered h Resolved.new.ordered

/-! ## Ancestors -/

/-- Any two numbers of steps that suffice lead up the same way. -/
theorem Ordered.ancestorsWithin_eq (h : t.Ordered) (hn : id ≤ n) (hm : id ≤ m) :
    t.ancestorsWithin n id = t.ancestorsWithin m id := by
  induction n generalizing m id with
  | zero =>
    obtain rfl : id = 0 := by omega
    cases m with
    | zero => rfl
    | succ m =>
      cases hp : (t.node 0).parent with
      | none => simp only [ancestorsWithin, hp]
      | some p => exact absurd (h 0 p hp) (by omega)
  | succ n ih =>
    cases hp : (t.node id).parent with
    | none => cases m <;> simp only [ancestorsWithin, hp]
    | some p =>
      have hlt : p < id := h id p hp
      cases m with
      | zero => omega
      | succ m =>
        have hrest : t.ancestorsWithin n p = t.ancestorsWithin m p := ih (by omega) (by omega)
        simp only [ancestorsWithin, hp, hrest]

theorem ancestors_of_no_parent (hp : (t.node id).parent = none) : t.ancestors id = [id] := by
  rw [ancestors]
  cases id with
  | zero => rfl
  | succ id => simp only [ancestorsWithin, hp]

theorem Ordered.ancestors_of_parent (h : t.Ordered) (hp : (t.node id).parent = some parent) :
    t.ancestors id = id :: t.ancestors parent := by
  have hlt : parent < id := h id parent hp
  cases id with
  | zero => omega
  | succ id =>
    have hrest : t.ancestorsWithin id parent = t.ancestorsWithin parent parent :=
      h.ancestorsWithin_eq (by omega) (Nat.le_refl parent)
    rw [ancestors, ancestorsWithin, hp, ancestors, ← hrest]

theorem exists_ancestors_eq_cons (h : t.Ordered) (id : Nat) : ∃ rest, t.ancestors id = id :: rest := by
  cases hp : (t.node id).parent with
  | none => exact ⟨[], ancestors_of_no_parent hp⟩
  | some parent => exact ⟨_, h.ancestors_of_parent hp⟩

/-! ## Chains -/

theorem describe_of_no_parent (hp : (t.node id).parent = none) :
    t.describe id = [(t.kind id, (t.node id).relativePath)] := by
  simp [describe, ancestors_of_no_parent hp]

theorem Ordered.describe_of_parent (h : t.Ordered) (hp : (t.node id).parent = some parent) :
    t.describe id = t.describe parent ++ [(t.kind id, "/" ++ (t.node id).segment)] := by
  have hrelative : (t.node id).relativePath = "/" ++ (t.node id).segment := by
    simp only [Node.relativePath, hp]
  simp [describe, h.ancestors_of_parent hp, hrelative]

/-- A tree that grows keeps the chains that it had. -/
theorem Extends.describe (h : t.Extends t') (ho : t.Ordered) (ho' : t'.Ordered)
    (hid : id < t.size) : t'.describe id = t.describe id := by
  induction id using Nat.strongRecOn with
  | ind id ih =>
    have hnode : t'.node id = t.node id := h.node id hid
    cases hp : (t.node id).parent with
    | none =>
      rw [describe_of_no_parent hp, describe_of_no_parent (hnode ▸ hp), Tree.kind, Tree.kind, hnode]
    | some parent =>
      have hlt : parent < id := ho id parent hp
      rw [ho.describe_of_parent hp, ho'.describe_of_parent (hnode ▸ hp), ih parent hlt (by omega),
        Tree.kind, Tree.kind, hnode]

/-- The chain of an added node is the chain of its parent and then the node. -/
theorem Ordered.describe_insert (h : t.Ordered) (hparent : parent < t.size)
    (hi : t.insert parent kind segment = .ok (id, t')) :
    t'.describe id = t.describe parent ++ [(kind, "/" ++ segment)] := by
  have ho' : t'.Ordered := h.insert hparent hi
  have hnode : t'.node id = ⟨kind, segment, some parent, none⟩ := node_insert_self hi
  rw [ho'.describe_of_parent (congrArg Node.parent hnode),
    (Extends.insert hi).describe h ho' hparent, Tree.kind, hnode]

/-- The path of a node is written from its chain alone. -/
theorem path_eq (t : Tree) (id : Nat) :
    t.path id = if String.join ((t.describe id).map Prod.snd) = "" then "/"
      else String.join ((t.describe id).map Prod.snd) := by
  simp only [path, describe, List.map_map]
  rfl

/-- Below the root the path of a node is written from the tokens that lead to it. -/
theorem path_eq_written {names : List String} (hne : names ≠ [])
    (h : (t.describe id).map Prod.snd = "" :: names.map ("/" ++ ·)) :
    t.path id = Path.written names := by
  have hwritten : String.join ("" :: names.map ("/" ++ ·)) = Path.written names := by
    apply String.toList_injective
    simp [Path.written, String.toList_join]
  have hsome : Path.written names ≠ "" := by
    intro hempty
    have hchars := congrArg String.toList hempty
    rw [Path.toList_written hne] at hchars
    cases hchars
  rw [path_eq, h, hwritten, if_neg hsome]

end Tree

namespace Context

variable {ctx : Context} {t t' : Tree} {id child : Nat} {token : String} {tokens : List String}

/-! ## Following tokens -/

/-- Whether or not all tokens lead on, the tree has grown by the nodes that were reached. -/
theorem resolve_grown (hid : id < t.size) : t.Grown (ctx.resolve t id tokens).2 := by
  induction tokens generalizing t id with
  | nil => exact .refl
  | cons token rest ih =>
    simp only [resolve]
    cases hs : ctx.step t id token rest.isEmpty with
    | error e => exact .refl
    | ok found =>
      obtain ⟨child, t₁⟩ := found
      obtain ⟨kind, _, hi⟩ := step_eq_ok.1 hs
      have hsize := Tree.size_insert hi
      exact (Tree.Grown.refl.insert hid hi).trans (ih (by omega))

theorem lookup_built {path : String} (hl : ctx.lookup path = .ok (id, t)) : t.Built := by
  obtain ⟨tokens, _, hr⟩ := resolvePath_eq_ok_iff.1 (lookup_eq_ok_iff.1 hl)
  have hgrown : Tree.new.Grown (ctx.resolve .new 0 tokens).2 := resolve_grown (by decide)
  rwa [hr] at hgrown

/-- Follows tokens of which none is the last one of a request. -/
def enter (ctx : Context) (t : Tree) (id : Nat) : List String → Except ViewError (Nat × Tree)
  | [] => .ok (id, t)
  | token :: rest =>
    match ctx.step t id token false with
    | .error e => .error e
    | .ok (child, t) => ctx.enter t child rest

theorem enter_concat_eq_ok : ctx.enter t id (tokens ++ [token]) = .ok (child, t') ↔
    ∃ parent mid, ctx.enter t id tokens = .ok (parent, mid) ∧
      ctx.step mid parent token false = .ok (child, t') := by
  induction tokens generalizing t id with
  | nil =>
    cases hs : ctx.step t id token false with
    | error e => simp [enter, and_assoc, hs]
    | ok found => simp [enter, and_assoc, hs, Prod.ext_iff]
  | cons first rest ih =>
    simp only [List.cons_append, enter]
    cases ctx.step t id first false with
    | error e => simp
    | ok found => exact ih

/-- Only the last token of a request is taken for the last one. -/
theorem resolve_concat_eq_ok : ctx.resolve t id (tokens ++ [token]) = (.ok child, t') ↔
    ∃ parent mid, ctx.enter t id tokens = .ok (parent, mid) ∧
      ctx.step mid parent token true = .ok (child, t') := by
  induction tokens generalizing t id with
  | nil =>
    cases hs : ctx.step t id token true with
    | error e => simp [enter, resolve, and_assoc, hs]
    | ok found => simp [enter, resolve, and_assoc, hs, Prod.ext_iff]
  | cons first rest ih =>
    have hmore : (rest ++ [token]).isEmpty = false := by cases rest <;> rfl
    simp only [List.cons_append, enter, resolve, hmore]
    cases ctx.step t id first false with
    | error e => simp
    | ok found => exact ih

/-- A path that can be followed up to its last token fails as this token does. -/
theorem resolve_concat_error {parent : Nat} {mid : Tree} {e : ViewError}
    (he : ctx.enter t id tokens = .ok (parent, mid)) (hs : ctx.step mid parent token true = .error e) :
    (ctx.resolve t id (tokens ++ [token])).1 = .error e := by
  induction tokens generalizing t id with
  | nil =>
    obtain ⟨rfl, rfl⟩ := Prod.mk.inj (Except.ok.inj he)
    simp [resolve, hs]
  | cons first rest ih =>
    have hmore : (rest ++ [token]).isEmpty = false := by cases rest <;> rfl
    simp only [List.cons_append, enter, resolve, hmore] at he ⊢
    cases hfirst : ctx.step t id first false with
    | error _ =>
      rw [hfirst] at he
      cases he
    | ok found =>
      rw [hfirst] at he
      exact ih he

theorem enter_resolved (h : t.Resolved) (hid : id < t.size)
    (he : ctx.enter t id tokens = .ok (child, t')) :
    t'.Resolved ∧ t.Extends t' ∧ child < t'.size := by
  induction tokens generalizing t id with
  | nil =>
    obtain ⟨rfl, rfl⟩ := Prod.mk.inj (Except.ok.inj he)
    exact ⟨h, .refl _, hid⟩
  | cons token rest ih =>
    simp only [enter] at he
    split at he
    · cases he
    next next t₁ hs =>
      obtain ⟨h₁, hext, hlt⟩ := step_resolved h hid hs
      obtain ⟨h', hext', hlt'⟩ := ih h₁ hlt he
      exact ⟨h', hext.trans hext', hlt'⟩

/-- One step makes the chain of a node longer by one. -/
theorem step_describe {last : Bool} (h : t.Ordered) (hid : id < t.size)
    (hs : ctx.step t id token last = .ok (child, t')) :
    t'.describe child = t.describe id ++ [(t'.kind child, "/" ++ token)] := by
  obtain ⟨kind, _, hi⟩ := step_eq_ok.1 hs
  rw [h.describe_insert hid hi, Tree.kind_insert_self hi]

theorem step_ordered {last : Bool} (ht : t.Ordered) (hid : id < t.size)
    (hs : ctx.step t id token last = .ok (child, t')) : t'.Ordered ∧ child < t'.size := by
  obtain ⟨kind, _, hinsert⟩ := step_eq_ok.1 hs
  have hsize := Tree.size_insert hinsert
  exact ⟨ht.insert hid hinsert, by omega⟩

/-- Following tokens makes the chain of a node longer by these tokens. -/
theorem resolve_chain (ht : t.Ordered) (hid : id < t.size)
    (hr : ctx.resolve t id tokens = (.ok child, t')) :
    (t'.describe child).map Prod.snd = (t.describe id).map Prod.snd ++ tokens.map ("/" ++ ·) := by
  induction tokens generalizing t id with
  | nil =>
    obtain ⟨hchild, rfl⟩ := Prod.mk.inj hr
    obtain rfl := Except.ok.inj hchild
    simp
  | cons token rest ih =>
    cases hs : ctx.step t id token rest.isEmpty with
    | error e => simp [resolve, hs] at hr
    | ok found =>
      obtain ⟨next, mid⟩ := found
      simp only [resolve, hs] at hr
      obtain ⟨hmid, hnext⟩ := step_ordered ht hid hs
      rw [ih hmid hnext hr, step_describe ht hid hs]
      simp

/-- A node that has a parent was found there at the last token of its path. -/
theorem lookup_below {path : String} {parent : Nat} (hl : ctx.lookup path = .ok (id, t))
    (hp : (t.node id).parent = some parent) :
    ∃ tokens token mid, Path.tokens path = .ok (tokens ++ [token]) ∧
      ctx.enter .new 0 tokens = .ok (parent, mid) ∧
      ctx.step mid parent token true = .ok (id, t) := by
  obtain ⟨tokens, htokens, hr⟩ := resolvePath_eq_ok_iff.1 (lookup_eq_ok_iff.1 hl)
  obtain rfl | ⟨first, last, rfl⟩ := List.eq_nil_or_concat tokens
  · obtain ⟨hid, rfl⟩ := Prod.mk.inj hr
    obtain rfl := Except.ok.inj hid
    cases hp
  · rw [List.concat_eq_append] at htokens hr
    obtain ⟨dir, mid, he, hs⟩ := resolve_concat_eq_ok.1 hr
    obtain ⟨kind, _, hinsert⟩ := step_eq_ok.1 hs
    have hnode : t.node id = ⟨kind, last, some dir, none⟩ := Tree.node_insert_self hinsert
    rw [hnode] at hp
    obtain rfl := Option.some.inj hp
    exact ⟨first, last, mid, htokens, he, hs⟩

/-- A node that is found at a path, other than the root, was found at its last token. -/
theorem lookup_last {path : String} (hl : ctx.lookup path = .ok (id, t)) (hk : t.kind id ≠ .root) :
    ∃ tokens token parent mid, Path.tokens path = .ok (tokens ++ [token]) ∧
      ctx.enter .new 0 tokens = .ok (parent, mid) ∧
      ctx.step mid parent token true = .ok (id, t) := by
  obtain ⟨parent, hp⟩ := (lookup_resolved hl).1.parent_of_ne_root hk
  obtain ⟨tokens, token, mid, hfound⟩ := lookup_below hl hp
  exact ⟨tokens, token, parent, mid, hfound⟩

/-- The chain of a node that is found at a path carries the tokens of the path. -/
theorem lookup_chain {path : String} {names : List String} (hl : ctx.lookup path = .ok (id, t))
    (htokens : Path.tokens path = .ok names) :
    (t.describe id).map Prod.snd = "" :: names.map ("/" ++ ·) := by
  obtain ⟨tokens, htokens', hr⟩ := resolvePath_eq_ok_iff.1 (lookup_eq_ok_iff.1 hl)
  obtain rfl := Except.ok.inj (htokens.symm.trans htokens')
  rw [resolve_chain Tree.Resolved.new.ordered (by decide) hr]
  rfl

/-- The path of a node is written from the tokens it was found by. -/
theorem lookup_path {path : String} {names : List String} (hl : ctx.lookup path = .ok (id, t))
    (htokens : Path.tokens path = .ok names) (hne : names ≠ []) : t.path id = Path.written names :=
  Tree.path_eq_written hne (lookup_chain hl htokens)

/-- The same of any node, the wiki root included. -/
theorem lookup_path_cases {path : String} {names : List String} (hl : ctx.lookup path = .ok (id, t))
    (htokens : Path.tokens path = .ok names) :
    t.path id = if names = [] then "/" else Path.written names := by
  split
  next hnil =>
    rw [Tree.path_eq, lookup_chain hl htokens, hnil]
    rfl
  next hne => exact lookup_path hl htokens hne

/-- The wiki root has the shortest path, and no other node has it. -/
theorem kind_eq_root_iff {path : String} (hl : ctx.lookup path = .ok (id, t)) :
    t.kind id = .root ↔ t.path id = "/" := by
  obtain ⟨tokens, htokens, hr⟩ := resolvePath_eq_ok_iff.1 (lookup_eq_ok_iff.1 hl)
  have hvalid := Path.valid_of_tokens htokens
  rw [lookup_path_cases hl htokens]
  obtain rfl | ⟨first, last, rfl⟩ := List.eq_nil_or_concat tokens
  · obtain ⟨hid, rfl⟩ := Prod.mk.inj hr
    obtain rfl := Except.ok.inj hid
    exact iff_of_true rfl rfl
  · rw [List.concat_eq_append] at hr hvalid ⊢
    obtain ⟨parent, mid, _, hs⟩ := resolve_concat_eq_ok.1 hr
    obtain ⟨kind, _, hinsert⟩ := step_eq_ok.1 hs
    refine iff_of_false ?_ ?_
    · rw [Tree.kind_insert_self hinsert]
      rintro rfl
      cases (Tree.insert_eq_ok hinsert).1
    · rw [if_neg (by simp)]
      exact Path.written_ne_root (by simp) hvalid

/-- A node that was found at a path is what its token names below its parent. -/
theorem lookup_decodes {path : String} {parent : Nat} (hl : ctx.lookup path = .ok (id, t))
    (hp : (t.node id).parent = some parent) :
    ctx.Decodes (t.node id).segment true (t.kind parent) (t.kind id) := by
  obtain ⟨tokens, token, mid, _, he, hs⟩ := lookup_below hl hp
  obtain ⟨_, _, hlt⟩ := enter_resolved .new (by decide) he
  obtain ⟨kind, hk, hinsert⟩ := step_eq_ok.1 hs
  have hparent : t.node parent = mid.node parent := (Tree.Extends.insert hinsert).node parent hlt
  rwa [Tree.node_insert_self hinsert, Tree.kind_insert_self hinsert, Tree.kind, hparent]

/-- An attachment is found among the files of its page, unless it may be uploaded or moved there. -/
theorem files_of_lookup {path : String} {a : Attachment} (hupload : ctx.intent.isCreateFile = false)
    (hmove : ctx.intent.moveSource? ≠ some .attachment) (hl : ctx.lookup path = .ok (id, t))
    (hk : t.kind id = .attachment a) :
    ∃ files, ctx.repository.files a.page = .ok files ∧ a.file ∈ files := by
  have hne : t.kind id ≠ .root := by simp [hk]
  obtain ⟨parent, hp⟩ := (lookup_resolved hl).1.parent_of_ne_root hne
  have hdecodes := lookup_decodes hl hp
  rw [hk] at hdecodes
  generalize t.kind parent = dir at hdecodes
  cases hdecodes with
  | view _ hview => obtain ⟨_, h⟩ | h := decodeBaseView_ok hview <;> cases h
  | attachment _ _ hfiles hnames =>
    exact ⟨_, hfiles, by simpa [namesFile, hupload, moving?, hmove] using hnames⟩

/-! ## Reading -/

/-- A request that names nothing new does not care whether a token is the last one. -/
theorem step_of_stored (hstored : ctx.intent.isCreateOrMove = false) (last : Bool) :
    ctx.step t id token last = ctx.step t id token false := by
  obtain ⟨w, caller, config, intent⟩ := ctx
  cases intent with
  | read | delete => cases last <;> rfl
  | createFile | createCollection | move _ => cases hstored

theorem resolve_of_stored_eq_ok (hstored : ctx.intent.isCreateOrMove = false) :
    ctx.resolve t id tokens = (.ok child, t') ↔ ctx.enter t id tokens = .ok (child, t') := by
  induction tokens generalizing t id with
  | nil => simp [resolve, enter]
  | cons token rest ih =>
    simp only [resolve, enter, step_of_stored hstored rest.isEmpty]
    cases ctx.step t id token false with
    | error e => simp
    | ok found => exact ih

theorem resolve_of_read_eq_ok (hread : ctx.intent = .read) :
    ctx.resolve t id tokens = (.ok child, t') ↔ ctx.enter t id tokens = .ok (child, t') :=
  resolve_of_stored_eq_ok (hread ▸ rfl)

end Context

end WikiMount
