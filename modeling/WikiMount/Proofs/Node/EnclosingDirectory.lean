import Mathlib.Data.List.Chain
import Mathlib.Data.List.Induction
import WikiMount.Proofs.Node.Chains
import WikiMount.Proofs.Storage.Reachable

/-!
# The directory that a request works in

Before the last token of a path it hardly matters what a request intends, so a request works in the
directory that is listed at the parent path. There is one exception. While a directory is created, each
token below a space names a page whether or not it is stored, and the way may leave the stored tree at a
space of that name. The two ways are the same exactly if every page that is entered from a space is
stored.
-/

namespace WikiMount

/-- Every page that a chain enters from a space directory is stored. -/
def Repository.EntersStored (r : Repository) (chain : List (NodeKind × String)) : Prop :=
  chain.IsChain fun above below =>
    ∀ space page, above.1 = .space space .pages → below.1 = .page page → r.hasPage page = true

theorem Tree.getLast?_describe (t : Tree) (id : Nat) :
    (t.describe id).getLast? = some (t.kind id, (t.node id).relativePath) := by
  have hhead : ∀ steps, (t.ancestorsWithin steps id).head? = some id := by
    intro steps
    cases steps with
    | zero => rfl
    | succ steps => cases hp : (t.node id).parent <;> simp [ancestorsWithin, hp]
  simp [describe, ancestors, hhead]

theorem Repository.entersStored_concat {r : Repository} {t : Tree} {id : Nat} {kind : NodeKind}
    {segment : String} :
    r.EntersStored (t.describe id ++ [(kind, segment)]) ↔
      r.EntersStored (t.describe id) ∧ ∀ space page, t.kind id = .space space .pages →
        kind = .page page → r.hasPage page = true := by
  simp [EntersStored, List.isChain_append, t.getLast?_describe]

namespace Context

/-- The context with another intent. -/
def withIntent (ctx : Context) (intent : Intent) : Context := { ctx with intent := intent }

variable {ctx : Context} {t t' : Tree} {id child dir : Nat} {token : String} {tokens : List String}
  {parent kind : NodeKind}

/-- A read finds only stored pages below a space. -/
theorem Decodes.stored_of_read {space : Space} {page : Page} (hread : ctx.intent = .read)
    (h : ctx.Decodes token false (.space space .pages) (.page page)) :
    ctx.repository.hasPage page = true := by
  cases h with
  | own _ _ hpage => simpa [namesPage, hread, Intent.isCreateCollection, moving?] using hpage
  | full _ _ _ _ h => exact (pageByFullName?_eq_some.1 h).2.2.2

/-- Before the last token a read finds what any request finds, unless a page that is not stored has been
made up for a new directory. -/
theorem Decodes.read (h : ctx.Decodes token false parent kind)
    (hstored : ctx.intent = .createCollection → ∀ space page, parent = .space space .pages →
      kind = .page page → ctx.repository.hasPage page = true) :
    (ctx.withIntent .read).Decodes token false parent kind := by
  by_cases hcreate : ctx.intent = .createCollection ∧ ∃ space, parent = .space space .pages
  · obtain ⟨hcreate, space, rfl⟩ := hcreate
    have hpage : ctx.namesPage space token false = true := namesPage_of_create hcreate space false
    cases h with
    | scratch hparent htoken => exact .scratch hparent htoken
    | group htoken hgroup h => exact .group htoken hgroup h
    | own htoken hgroup =>
      refine .own htoken hgroup ?_
      rw [namesPage, Bool.or_eq_true]
      exact .inr (hstored hcreate _ _ rfl rfl)
    | nested _ _ hnot => exact absurd hpage (by simp [hnot])
    | full _ _ hnot => exact absurd hpage (by simp [hnot])
  · refine h.congr (.refl _ _) rfl rfl rfl fun space hparent => ?_
    have hintent : ctx.intent ≠ .createCollection := fun hi => hcreate ⟨hi, space, hparent⟩
    cases hi : ctx.intent <;> simp_all [withIntent, Intent.isCreateCollection]

/-- A way is found again in another context if each of its steps is. What is asked of the chain of a node
for this is to hold of the chains before it. -/
theorem enter_transfer {ctx' : Context} (good : List (NodeKind × String) → Prop)
    (hgood : ∀ chain last, good (chain ++ [last]) → good chain)
    (hstep : ∀ {t : Tree} {id : Nat} {token : String} {kind : NodeKind},
      good (t.describe id ++ [(kind, "/" ++ token)]) → ctx.Decodes token false (t.kind id) kind →
        ctx'.Decodes token false (t.kind id) kind)
    (h : ctx.enter .new 0 tokens = .ok (dir, t)) (hchain : good (t.describe dir)) :
    ctx'.enter .new 0 tokens = .ok (dir, t) := by
  induction tokens using List.reverseRecOn generalizing t dir with
  | nil => exact h
  | append_singleton tokens token ih =>
    obtain ⟨parent, mid, he, hs⟩ := enter_concat_eq_ok.1 h
    obtain ⟨hmid, _, hlt⟩ := enter_resolved .new (by decide) he
    rw [step_describe hmid.ordered hlt hs] at hchain
    have hfirst := ih he (hgood _ _ hchain)
    obtain ⟨kind, hk, hinsert⟩ := step_eq_ok.1 hs
    obtain rfl : t.kind dir = kind := Tree.kind_insert_self hinsert
    exact enter_concat_eq_ok.2 ⟨parent, mid, hfirst, step_eq_ok.2 ⟨_, hstep hchain hk, hinsert⟩⟩

/-- The way to a node is found again by a read if every page on it that a space is asked for is
stored. -/
theorem enter_read (h : ctx.enter .new 0 tokens = .ok (dir, t))
    (hstored : ctx.intent = .createCollection → ctx.repository.EntersStored (t.describe dir)) :
    (ctx.withIntent .read).enter .new 0 tokens = .ok (dir, t) := by
  refine enter_transfer (fun chain => ctx.intent = .createCollection → ctx.repository.EntersStored chain)
    (fun chain last hchain hi => ?_) (fun hchain hk => ?_) h hstored
  · exact (List.isChain_append.1 (hchain hi)).1
  · exact hk.read fun hi => (Repository.entersStored_concat.1 (hchain hi)).2

theorem entersStored_of_read (hread : ctx.intent = .read)
    (h : ctx.enter .new 0 tokens = .ok (dir, t)) : ctx.repository.EntersStored (t.describe dir) := by
  induction tokens using List.reverseRecOn generalizing t dir with
  | nil =>
    obtain ⟨rfl, rfl⟩ := Prod.mk.inj (Except.ok.inj h)
    exact .singleton _
  | append_singleton tokens token ih =>
    obtain ⟨parent, mid, he, hs⟩ := enter_concat_eq_ok.1 h
    obtain ⟨hmid, _, hlt⟩ := enter_resolved .new (by decide) he
    obtain ⟨kind, hk, hinsert⟩ := step_eq_ok.1 hs
    have hkind : t.kind dir = kind := Tree.kind_insert_self hinsert
    rw [step_describe hmid.ordered hlt hs]
    refine Repository.entersStored_concat.2 ⟨ih he, fun space page hparent hpage => ?_⟩
    rw [hparent, ← hkind, hpage] at hk
    exact hk.stored_of_read hread

/-- A request that succeeds works in the directory that a read of its path without the last token leads
to. Only a request for a new directory may not: it does exactly if the pages that it enters from space
directories are stored. -/
theorem resolve_enclosing (h : ctx.resolve .new 0 (tokens ++ [token]) = (.ok child, t)) :
    ∃ parent, (t.node child).parent = some parent ∧
      ((∃ dir t', (ctx.withIntent .read).resolve .new 0 tokens = (.ok dir, t') ∧
          t'.describe dir = t.describe parent) ↔
        (ctx.intent = .createCollection → ctx.repository.EntersStored (t.describe parent))) := by
  obtain ⟨parent, mid, he, hs⟩ := resolve_concat_eq_ok.1 h
  obtain ⟨hmid, _, hlt⟩ := enter_resolved .new (by decide) he
  obtain ⟨kind, hk, hinsert⟩ := step_eq_ok.1 hs
  have hnode : t.node child = ⟨kind, token, some parent, none⟩ := Tree.node_insert_self hinsert
  have hchain : t.describe parent = mid.describe parent :=
    (Tree.Extends.insert hinsert).describe hmid.ordered (hmid.ordered.insert hlt hinsert) hlt
  refine ⟨parent, congrArg Node.parent hnode, ?_⟩
  rw [hchain]
  constructor
  · rintro ⟨dir, t', hread, hsame⟩ _
    have henter := (resolve_of_read_eq_ok rfl).1 hread
    have hstored : (ctx.withIntent .read).repository.EntersStored (t'.describe dir) :=
      entersStored_of_read rfl henter
    rwa [hsame] at hstored
  · intro hstored
    have henter := enter_read he hstored
    exact ⟨parent, mid, (resolve_of_read_eq_ok rfl).2 henter, rfl⟩

/-- A new directory in a nested space is looked for below a page of that name, which is not stored. -/
theorem resolve_enclosing_unstored :
    let a := Space.topLevel "A"
    let ctx : Context := ⟨⟨.ofStore (Store.empty.registerSpace (a.child "B")), none⟩,
      ⟨.anonymous, .allowAll⟩, .standard, .createCollection⟩
    let tokens := ["spaces", "A", "B"]
    ∃ t, ctx.resolve .new 0 (tokens ++ ["C"]) = (.ok 4, t) ∧ (t.node 4).parent = some 3 ∧
      t.kind 3 = .page (.inSpace "B" a) ∧
      ¬∃ dir t', (ctx.withIntent .read).resolve .new 0 tokens = (.ok dir, t') ∧
        t'.describe dir = t.describe 3 := by
  intro a ctx tokens
  let t : Tree := ⟨#[.root, ⟨.baseView .pages, "spaces", some 0, none⟩,
    ⟨.space a .pages, "A", some 1, none⟩, ⟨.page (.inSpace "B" a), "B", some 2, none⟩,
    ⟨.page (childOf (.inSpace "B" a) (.relative "C")), "C", some 3, none⟩]⟩
  have hr : ctx.resolve .new 0 (tokens ++ ["C"]) = (.ok 4, t) := by
    dsimp only [ctx, tokens, t, a]
    rfl
  refine ⟨t, hr, rfl, rfl, fun hsame => ?_⟩
  obtain ⟨parent, hparent, henclosing⟩ := resolve_enclosing hr
  obtain rfl : 3 = parent := Option.some.inj hparent
  have hchain : t.describe 3 = t.describe 2 ++ [(.page (.inSpace "B" a), "/B")] := rfl
  have hstored := henclosing.1 hsame rfl
  rw [hchain] at hstored
  have hpage := (Repository.entersStored_concat.1 hstored).2 a _ rfl rfl
  exact absurd hpage (by decide)

end Context

end WikiMount
