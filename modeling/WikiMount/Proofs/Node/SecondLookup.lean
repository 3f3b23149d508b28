import WikiMount.Proofs.Node.Placement
import WikiMount.Proofs.Storage.Reachable

/-!
# Looking up the source of a rename again

A rename looks its source up twice: first to learn what is moved, and then, knowing that, to move it.
The second look-up goes the same way as the first up to the last token of the path. At the last token
of a page in a space directory it takes the token for the name of the page, so it misses a page that
the token names in full. Everything else is found again.
-/

namespace WikiMount

/-- What the last token finds below a node when the source is known to be of a certain kind. -/
def NodeKind.foundAgain (parent : NodeKind) (token : String) (kind : NodeKind) : NodeKind :=
  match parent, kind with
  | .space s .pages, .page _ => .page (.inSpace token s)
  | _, kind => kind

/-- A page in a space directory is reached by a token that is not its name there. -/
def Tree.NamedInFull (t : Tree) (id : Nat) (space : Space) (page : Page) : Prop :=
  (∃ parent, (t.node id).parent = some parent ∧ t.kind parent = .space space .pages) ∧
    t.kind id = .page page ∧ page ≠ .inSpace (t.node id).segment space

namespace Context

/-- The context with the intent of a rename. -/
def withMove (ctx : Context) (m : MoveSource) : Context := { ctx with intent := .move m }

variable {ctx : Context} {m n : MoveSource} {token : String} {last : Bool}

@[simp] theorem mayBeNew_withMove : (ctx.withMove m).mayBeNew last = last := Bool.and_true last

@[simp] theorem namesGroup_withMove :
    (ctx.withMove m).namesGroup token last = (ReservedName.isGroup token && !last) := by
  simp [namesGroup]

@[simp] theorem namesPage_withMove {space : Space} :
    (ctx.withMove m).namesPage space token last =
      (last && m == .page || ctx.repository.hasPage (.inSpace token space)) := by
  cases last <;> simp [namesPage, moving?, withMove, Intent.isCreateCollection, Intent.moveSource?]

@[simp] theorem namesSpace_withMove {space : Space} :
    (ctx.withMove m).namesSpace space token last =
      (last && m == .space || ctx.repository.hasSpace (space.child token)) := by
  cases last <;> simp [namesSpace, moving?, withMove, Intent.moveSource?]

@[simp] theorem namesFile_withMove {files : List String} :
    (ctx.withMove m).namesFile files token last =
      (files.contains token || last && m == .attachment) := by
  cases last <;> simp [namesFile, moving?, withMove, Intent.moveSource?, Intent.isCreateFile]

variable {parent kind : NodeKind}

/-- Before the last token it does not matter what is moved. -/
theorem Decodes.withMove (h : (ctx.withMove m).Decodes token false parent kind) :
    (ctx.withMove n).Decodes token false parent kind :=
  h.congr (.refl _ _) rfl rfl rfl fun _ _ => rfl

theorem foundAgain_of_not_page (h : kind.isPage = false) : parent.foundAgain token kind = kind := by
  cases kind with
  | page p => cases h
  | _ =>
    unfold NodeKind.foundAgain
    split <;> simp_all

/-- What the last token names when it is known what is moved. -/
theorem Decodes.again (h : (ctx.withMove .unknown).Decodes token true parent kind) :
    (ctx.withMove (moveSourceOf kind)).Decodes token true parent (parent.foundAgain token kind) := by
  cases h with
  | scratch hparent htoken =>
    rw [foundAgain_of_not_page rfl]
    exact .scratch hparent htoken
  | view htoken h => exact .view htoken h
  | topLevel htoken hnew => exact .topLevel htoken rfl
  | listed htoken h => exact .listed htoken h
  -- Letter groups and the views that list stored pages only are closed to the last token of a move.
  | orphan _ _ _ _ hnew => cases hnew
  | group _ hgroup => simp at hgroup
  | fileGroup _ hgroup => simp at hgroup
  | groupedHolder _ _ hnew => cases hnew
  | own htoken hgroup hpage => exact .own htoken (by simp) (by simp [moveSourceOf])
  | nested htoken hgroup hpage hspace =>
    exact .nested htoken (by simp) (by simpa [moveSourceOf] using hpage) (by simp [moveSourceOf])
  | full htoken hgroup hpage hspace h => exact .own htoken (by simp) (by simp [moveSourceOf])
  | holder htoken hgroup hpage => exact .holder htoken (by simp) hpage
  | grouped htoken hgroup hnew => exact .grouped htoken hgroup rfl
  | wikiFile htoken h => exact .wikiFile htoken h
  | attachment htoken hformat hfiles h =>
    exact .attachment htoken hformat hfiles (by simp [moveSourceOf])
  | child htoken hformat hfiles hfile h =>
    exact .child htoken hformat hfiles (by simpa [moveSourceOf] using hfile) h

variable {t t₁ : Tree} {id child : Nat}

/-- What is found again may stand where it was found. -/
theorem validate_foundAgain (h : Tree.validate parent kind = .ok ()) :
    Tree.validate parent (parent.foundAgain token kind) = .ok () := by
  simp only [NodeKind.foundAgain]
  split
  · rfl
  · exact h

theorem step_again (hid : id < t.size)
    (h : (ctx.withMove .unknown).step t id token true = .ok (child, t₁)) :
    ∃ t₂, (ctx.withMove (moveSourceOf (t₁.kind child))).step t id token true = .ok (child, t₂) ∧
      (t₁.node child).parent = some id ∧
      t₂.kind child = (t₁.kind id).foundAgain (t₁.node child).segment (t₁.kind child) := by
  obtain ⟨kind, hk, hi⟩ := step_eq_ok.1 h
  obtain ⟨hv, rfl, _⟩ := Tree.insert_eq_ok hi
  have hnode : t₁.node t.size = ⟨kind, token, some id, none⟩ := by
    rw [Tree.node_insert hi, if_pos rfl]
  have hkind : t₁.kind t.size = kind := congrArg Node.kind hnode
  have hparent : t₁.kind id = t.kind id := by
    rw [Tree.kind_insert hi, if_neg (by omega)]
  have hi₂ : t.insert id ((t.kind id).foundAgain token kind) token =
      .ok (t.size, ⟨t.nodes.push ⟨(t.kind id).foundAgain token kind, token, some id, none⟩⟩) := by
    simp only [Tree.insert, validate_foundAgain hv]
  refine ⟨_, step_eq_ok.2 ⟨_, hkind.symm ▸ hk.again, hi₂⟩, congrArg Node.parent hnode, ?_⟩
  rw [Tree.kind_insert hi₂, if_pos rfl, hparent, hnode, hkind]

/-- The second way goes through the same nodes up to the last one. -/
theorem resolve_again {tokens : List String} (ht : t.Resolved) (hid : id < t.size)
    (hne : tokens ≠ []) (h : (ctx.withMove .unknown).resolve t id tokens = (.ok child, t₁)) :
    ∃ t₂ parent,
      (ctx.withMove (moveSourceOf (t₁.kind child))).resolve t id tokens = (.ok child, t₂) ∧
      (t₁.node child).parent = some parent ∧
      t₂.kind child = (t₁.kind parent).foundAgain (t₁.node child).segment (t₁.kind child) := by
  induction tokens generalizing t id with
  | nil => exact absurd rfl hne
  | cons token rest ih =>
    cases hs : (ctx.withMove .unknown).step t id token rest.isEmpty with
    | error e => simp [resolve, hs] at h
    | ok found =>
      obtain ⟨mid, t'⟩ := found
      simp only [resolve, hs] at h
      cases rest with
      | nil =>
        obtain ⟨hmid, rfl⟩ := Prod.mk.inj h
        obtain rfl := Except.ok.inj hmid
        obtain ⟨t₂, hs₂, hparent, hkind⟩ := step_again hid hs
        refine ⟨t₂, id, ?_, hparent, hkind⟩
        simp only [resolve, List.isEmpty_nil, hs₂]
      | cons token' rest =>
        obtain ⟨ht', _, hmid⟩ := step_resolved ht hid hs
        obtain ⟨t₂, parent, hr, hparent, hkind⟩ := ih ht' hmid (by simp) h
        obtain ⟨kind, hk, hi⟩ := step_eq_ok.1 hs
        have hs₂ : (ctx.withMove (moveSourceOf (t₁.kind child))).step t id token false =
            .ok (mid, t') :=
          step_eq_ok.2 ⟨kind, hk.withMove, hi⟩
        refine ⟨t₂, parent, ?_, hparent, hkind⟩
        rw [resolve, List.isEmpty_cons, hs₂]
        exact hr

theorem foundAgain_eq_iff : parent.foundAgain token kind = kind ↔
    ¬∃ space page, parent = .space space .pages ∧ kind = .page page ∧
      page ≠ .inSpace token space := by
  simp only [NodeKind.foundAgain]
  split
  next space page =>
    simp only [NodeKind.page.injEq, NodeKind.space.injEq]
    grind
  next hnot => grind

/-- Knowing what is moved, the source of a rename is found again as it was, unless it is a page of a
space directory that the path names in full. Then the last token of the path is taken for the name of
a page in that space. -/
theorem lookup_again {path : String} (h : (ctx.withMove .unknown).lookup path = .ok (id, t)) :
    ∃ t', (ctx.withMove (moveSourceOf (t.kind id))).lookup path = .ok (id, t') ∧
      (t'.kind id = t.kind id ↔ ∀ space page, ¬t.NamedInFull id space page) ∧
      ∀ space page, t.NamedInFull id space page →
        t'.kind id = .page (.inSpace (t.node id).segment space) := by
  obtain ⟨tokens, htokens, hr⟩ := resolvePath_eq_ok_iff.1 (lookup_eq_ok_iff.1 h)
  have hagain : ∀ m t', (ctx.withMove m).resolve .new 0 tokens = (.ok id, t') →
      (ctx.withMove m).lookup path = .ok (id, t') := fun m t' hr' =>
    lookup_eq_ok_iff.2 (resolvePath_eq_ok_iff.2 ⟨tokens, htokens, hr'⟩)
  by_cases hempty : tokens = []
  · subst hempty
    obtain ⟨hroot, rfl⟩ := Prod.mk.inj hr
    obtain rfl := Except.ok.inj hroot
    have hnot : ∀ space page, ¬Tree.new.NamedInFull 0 space page := by
      rintro space page ⟨⟨parent, hparent, _⟩, _⟩
      cases hparent
    refine ⟨.new, hagain _ _ rfl, ?_, fun space page hn => absurd hn (hnot space page)⟩
    exact ⟨fun _ => hnot, fun _ => rfl⟩
  · obtain ⟨t₂, parent, hr₂, hparent, hkind⟩ := resolve_again .new (by decide) hempty hr
    have hspaces : ∀ space page, t.NamedInFull id space page ↔ t.kind parent = .space space .pages ∧
        t.kind id = .page page ∧ page ≠ .inSpace (t.node id).segment space := by
      intro space page
      simp only [Tree.NamedInFull, hparent, Option.some.injEq, exists_eq_left']
    refine ⟨t₂, hagain _ _ hr₂, ?_, ?_⟩
    · rw [hkind, foundAgain_eq_iff]
      simp only [hspaces, not_exists]
    · intro space page hn
      obtain ⟨hspace, hpage, _⟩ := (hspaces space page).1 hn
      rw [hkind, hspace, hpage]
      rfl

/-- A stored page that is named in full is found first, and then missed. -/
theorem lookup_again_in_full :
    let a := Page.inSpace "A" (.topLevel "Main")
    let ctx : Context :=
      ⟨⟨.ofStore (.ofPages [a]), none⟩, ⟨.anonymous, .allowAll⟩, .standard, .read⟩
    let path := "/spaces/Main/Main.A"
    let t : Tree := ⟨#[.root, ⟨.baseView .pages, "spaces", some 0, none⟩,
      ⟨.space (.topLevel "Main") .pages, "Main", some 1, none⟩, ⟨.page a, "Main.A", some 2, none⟩]⟩
    (ctx.withMove .unknown).lookup path = .ok (3, t) ∧ t.NamedInFull 3 (.topLevel "Main") a ∧
      ∃ t', (ctx.withMove .page).lookup path = .ok (3, t') ∧
        t'.kind 3 = .page (.inSpace "Main.A" (.topLevel "Main")) := by
  intro a ctx path t
  have hl : (ctx.withMove .unknown).lookup path = .ok (3, t) := by
    dsimp only [ctx, path, t, a]
    rfl
  have hfull : t.NamedInFull 3 (.topLevel "Main") a := by
    refine ⟨⟨2, rfl, rfl⟩, rfl, ?_⟩
    dsimp only [a]
    decide
  obtain ⟨t', hl', _, hpage⟩ := lookup_again hl
  exact ⟨hl, hfull, t', hl', hpage _ _ hfull⟩

end Context

end WikiMount
