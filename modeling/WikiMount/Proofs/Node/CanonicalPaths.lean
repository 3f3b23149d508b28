import WikiMount.Proofs.Node.EnclosingDirectory

/-!
# One node for every spelling of a path

A path may be spelled with any number of slashes at its ends, but only its tokens are followed. Each node
keeps its token as it was read, and a token asks the tree for nothing but the kind of the node that it is
followed from. So the path of the node that is found is written from the tokens, and whatever tree it is
followed in, it leads through a chain of the same kinds.
-/

namespace WikiMount

namespace Tree

variable {t u : Tree} {id other parent : Nat} {kind : NodeKind}

theorem insert_of_validate (hv : validate (t.kind parent) kind = .ok ()) (segment : String) :
    t.insert parent kind segment =
      .ok (t.size, ⟨t.nodes.push ⟨kind, segment, some parent, none⟩⟩) := by
  simp [insert, hv]

/-- The last of a chain is the node it belongs to. -/
theorem kind_eq_of_describe (h : u.describe other = t.describe id) : u.kind other = t.kind id := by
  have hlast := congrArg List.getLast? h
  rw [getLast?_describe, getLast?_describe] at hlast
  exact congrArg Prod.fst (Option.some.inj hlast)

theorem Built.nonempty (h : t.Built) : 0 < t.size :=
  Nat.lt_of_lt_of_le (by decide) (Grown.keepsPlaces h).size_le

/-- Whatever has been added to it, a tree has the wiki root at its top. -/
theorem Built.describe_root (h : t.Built) : t.describe 0 = [(.root, "")] := by
  have hplaces : new.KeepsPlaces t := Grown.keepsPlaces h
  have hparent : (t.node 0).parent = none := hplaces.parent 0 (by decide)
  have hkind : t.kind 0 = .root := hplaces.kind 0 (by decide)
  rw [describe_of_no_parent hparent, hkind, Node.relativePath, hparent]

end Tree

namespace Context

variable {ctx ctx' : Context} {t t' u : Tree} {id other child : Nat} {token : String}
  {tokens : List String} {last : Bool} {parent kind : NodeKind}

/-- A token names the same for every caller. -/
theorem Decodes.transfer (hrepository : ctx'.repository = ctx.repository)
    (hintent : ctx'.intent = ctx.intent) (h : ctx.Decodes token last parent kind) :
    ctx'.Decodes token last parent kind :=
  h.congr (hrepository ▸ .refl parent _) (by simp only [mayBeNew, hintent]) (by rw [hintent])
    (by simp only [moving?, hintent]) fun _ _ => by rw [hintent]

/-- The path of a node that is found is written from the tokens that were followed. -/
theorem resolvePath_path {path : String} {names : List String} (ht : t.Built)
    (htokens : Path.tokens path = .ok names) (hr : ctx.resolvePath t path = (.ok id, t')) :
    t'.path id = Path.canonical names := by
  obtain ⟨tokens, htokens', hr⟩ := resolvePath_eq_ok_iff.1 hr
  obtain rfl := Except.ok.inj (htokens.symm.trans htokens')
  have hchain : (t'.describe id).map Prod.snd = "" :: names.map ("/" ++ ·) := by
    rw [resolve_chain ht.ordered ht.nonempty hr, ht.describe_root]
    rfl
  by_cases hne : names = []
  · subst hne
    rw [Tree.path_eq, hchain]
    rfl
  · rw [Tree.path_eq_written hne hchain, Path.canonical_eq_written hne]

/-! ## Another tree -/

/-- A token that is followed from a node is followed from every node with the same chain. -/
theorem step_transfer (hrepository : ctx'.repository = ctx.repository)
    (hintent : ctx'.intent = ctx.intent) (ht : t.Ordered) (hu : u.Ordered) (hid : id < t.size)
    (hother : other < u.size) (hsame : u.describe other = t.describe id)
    (hs : ctx.step t id token last = .ok (child, t')) :
    ∃ child' u', ctx'.step u other token last = .ok (child', u') ∧
      u'.describe child' = t'.describe child := by
  obtain ⟨kind, hk, hinsert⟩ := step_eq_ok.1 hs
  have hkind : u.kind other = t.kind id := Tree.kind_eq_of_describe hsame
  have hplace : Tree.validate (u.kind other) kind = .ok () := hkind ▸ (Tree.insert_eq_ok hinsert).1
  have hinsert' := Tree.insert_of_validate hplace token
  refine ⟨_, _, step_eq_ok.2 ⟨kind, hkind ▸ hk.transfer hrepository hintent, hinsert'⟩, ?_⟩
  rw [hu.describe_insert hother hinsert', ht.describe_insert hid hinsert, hsame]

theorem resolve_transfer (hrepository : ctx'.repository = ctx.repository)
    (hintent : ctx'.intent = ctx.intent) (ht : t.Ordered) (hu : u.Ordered) (hid : id < t.size)
    (hother : other < u.size) (hsame : u.describe other = t.describe id)
    (hr : ctx.resolve t id tokens = (.ok child, t')) :
    ∃ child' u', ctx'.resolve u other tokens = (.ok child', u') ∧
      u'.describe child' = t'.describe child := by
  induction tokens generalizing t id u other with
  | nil =>
    obtain ⟨hchild, rfl⟩ := Prod.mk.inj hr
    obtain rfl := Except.ok.inj hchild
    exact ⟨other, u, rfl, hsame⟩
  | cons token rest ih =>
    cases hs : ctx.step t id token rest.isEmpty with
    | error e => simp [resolve, hs] at hr
    | ok found =>
      obtain ⟨next, mid⟩ := found
      simp only [resolve, hs] at hr
      obtain ⟨next', mid', hs', hsame'⟩ :=
        step_transfer hrepository hintent ht hu hid hother hsame hs
      obtain ⟨hmid, hnext⟩ := step_ordered ht hid hs
      obtain ⟨hmid', hnext'⟩ := step_ordered hu hother hs'
      simp only [resolve, hs']
      exact ih hmid hmid' hnext hnext' hsame' hr

/-- Only the tokens of a path are followed. -/
theorem resolvePath_of_spells {path other : String} {names : List String}
    (hpath : Path.Spells path names) (hother : Path.Spells other names) (u : Tree) :
    ctx.resolvePath u other = ctx.resolvePath u path := by
  simp only [resolvePath, Path.tokens_eq_ok_iff_spells.2 hpath, Path.tokens_eq_ok_iff_spells.2 hother]

/-- Paths have one canonical form. A path has tokens exactly if it is spelled from valid names. If it leads
to a node, the path of this node is a slash and then the names, with a slash between any two of them; all
spellings of the names lead alike in every tree; and the path of the node leads, whoever asks and whatever
the tree holds by then, through the same chain of nodes. -/
theorem path_of_resolved (ctx : Context) (path : String) :
    (∀ names, Path.tokens path = .ok names ↔ Path.Spells path names) ∧
    ∀ t t' id, t.Built → ctx.resolvePath t path = (.ok id, t') →
      ∃ names, Path.Spells path names ∧ t'.path id = "/" ++ "/".intercalate names ∧
        (∀ other, Path.Spells other names → ∀ u, ctx.resolvePath u other = ctx.resolvePath u path) ∧
        ∀ ctx' : Context, ctx'.repository = ctx.repository → ctx'.intent = ctx.intent →
          ∀ u, u.Built → ∃ id' u', ctx'.resolvePath u (t'.path id) = (.ok id', u') ∧
            u'.describe id' = t'.describe id := by
  refine ⟨fun _ => Path.tokens_eq_ok_iff_spells, fun t t' id ht hr => ?_⟩
  obtain ⟨names, htokens, hr'⟩ := resolvePath_eq_ok_iff.1 hr
  have hspells : Path.Spells path names := Path.tokens_eq_ok_iff_spells.1 htokens
  have hcanonical : t'.path id = Path.canonical names := resolvePath_path ht htokens hr
  refine ⟨names, hspells, hcanonical, fun _ hother => resolvePath_of_spells hspells hother,
    fun ctx' hrepository hintent u hu => ?_⟩
  have hroot : u.describe 0 = t.describe 0 := by rw [hu.describe_root, ht.describe_root]
  obtain ⟨id', u', hfound, hsame⟩ := resolve_transfer hrepository hintent ht.ordered hu.ordered
    ht.nonempty hu.nonempty hroot hr'
  refine ⟨id', u', resolvePath_eq_ok_iff.2 ⟨names, ?_, hfound⟩, hsame⟩
  rw [hcanonical]
  exact Path.tokens_eq_ok_iff_spells.2 (Path.spells_canonical hspells.valid)

/-- A letter group keeps the token that it was found by, though its own name is in capitals. -/
theorem path_of_resolved_group :
    let ctx : Context :=
      ⟨⟨.ofStore (.ofPages [.inSpace "Abc" (.topLevel "Main")]), none⟩, ⟨.anonymous, .allowAll⟩,
        .standard, .read⟩
    let group : LetterGroup := ⟨"AB", by decide, by decide⟩
    let t : Tree := ⟨#[.root, ⟨.baseView .pages, "spaces", some 0, none⟩,
      ⟨.space (.topLevel "Main") .pages, "Main", some 1, none⟩,
      ⟨.pageGroup (.topLevel "Main") group, "_ab_", some 2, none⟩]⟩
    ctx.resolvePath .new "//spaces/Main/_ab_/" = (.ok 3, t) ∧ group.name = "_AB_" ∧
      t.path 3 = "/spaces/Main/_ab_" ∧
      ∃ id' u', ctx.resolvePath t (t.path 3) = (.ok id', u') ∧ u'.describe id' = t.describe 3 := by
  intro ctx group t
  have hr : ctx.resolvePath .new "//spaces/Main/_ab_/" = (.ok 3, t) := by
    dsimp only [ctx, group, t]
    rfl
  have hbuilt : t.Built := lookup_built (lookup_eq_ok_iff.2 hr)
  obtain ⟨_, _, _, _, hagain⟩ := (path_of_resolved ctx _).2 .new t 3 .refl hr
  exact ⟨hr, by decide, by decide, hagain ctx rfl rfl t hbuilt⟩

end Context

end WikiMount
