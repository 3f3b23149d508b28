import WikiMount.Proofs.Node.FileSizes
import WikiMount.Proofs.Node.ListedPaths
import WikiMount.Proofs.Node.PageHierarchy

/-!
# What may be viewed

Whatever a request shows of a page or an attachment, the policy grants the caller to view just that page
or attachment. Every rule of listing makes this check itself, so it does not matter by which rule a member
is offered; looking at a node and reading it make the check before anything else and are refused without
the right. Spaces, views and scratch files are shown to everyone.
-/

namespace WikiMount

/-- Viewing takes a right for pages and attachments; spaces are open to everyone. -/
def Entity.isGuarded : Entity → Bool
  | .space _ => false
  | .page _ | .attachment _ => true

/-- What a node refers to may be shown: it is not guarded, or the right to view it is granted. -/
def Policy.Shows (policy : Policy) (reference : Option Entity) : Prop :=
  ∀ e, reference = some e → e.isGuarded = true → policy.grants .view e = true

namespace Policy

variable {policy : Policy} {e : Entity}

theorem shows_none : policy.Shows none := fun _ h => nomatch h

theorem shows_space (space : Space) : policy.Shows (some (.space space)) := by
  intro e h hg
  obtain rfl := Option.some.inj h
  cases hg

theorem shows_of_grants (h : policy.grants .view e = true) : policy.Shows (some e) := by
  intro e' he _
  exact Option.some.inj he ▸ h

end Policy

namespace Context

variable {ctx : Context} {t : Tree} {id : Nat} {parent kind : NodeKind} {segment path : String}

/-! ## Listing -/

/-- Pages that are offered one by one or in groups may be viewed. -/
theorem shows_of_mem_grouped {asGroup : LetterGroup → NodeKind} {pages : List Page} {space : Space}
    (hgroup : ∀ g, (asGroup g).reference? = some (.space space))
    (h : (kind, segment) ∈ ctx.grouped asGroup (ctx.visible pages)) :
    ctx.caller.policy.Shows kind.reference? := by
  obtain ⟨page, hpage, rfl, _⟩ | ⟨g, _, rfl, _⟩ := grouped_cases h
  · exact Policy.shows_of_grants (mem_visible.1 hpage).2
  · rw [hgroup]
    exact Policy.shows_space space

/-- What is offered below a node may be shown. -/
theorem Offers.shown (h : ctx.Offers t id parent kind segment) :
    ctx.caller.policy.Shows kind.reference? := by
  cases h with
  | view _ => exact Policy.shows_none
  | orphans => exact Policy.shows_none
  | topLevel _ => exact Policy.shows_space _
  | space _ => exact Policy.shows_space _
  | nested _ => exact Policy.shows_space _
  | orphan _ hview => exact Policy.shows_of_grants hview
  | own h => exact shows_of_mem_grouped (fun _ => rfl) h
  | holder h => exact shows_of_mem_grouped (fun _ => rfl) h
  | grouped _ hview => exact Policy.shows_of_grants hview
  | groupedHolder _ _ hview => exact Policy.shows_of_grants hview
  | child _ _ _ hview => exact Policy.shows_of_grants hview
  | attachment _ _ hview => exact Policy.shows_of_grants hview
  | wikiFile hpage _ => exact Policy.shows_of_grants hpage
  | scratch _ _ _ _ => exact Policy.shows_none

theorem list_of_lookup (hl : ctx.lookup path = .ok (id, t)) (hk : (t.kind id).isCollection = true) :
    ctx.list path = .ok ((ctx.members t id).1.map (ctx.members t id).2.entry) := by
  simp only [list, hl, hk, bind, Except.bind]
  rfl

theorem list_shown {entries : List Entry} (h : ctx.list path = .ok entries) :
    ∀ entry ∈ entries, ctx.caller.policy.Shows entry.reference := by
  obtain ⟨dir, t, hl, rfl⟩ := list_eq_ok h
  obtain ⟨ht, hdir⟩ := lookup_resolved hl
  intro entry hentry
  obtain ⟨child, hchild, rfl⟩ := List.mem_map.1 hentry
  obtain ⟨kind, segment, ho, _, hnode⟩ := members_sound ht.ordered hdir rfl hchild
  have hkind : (ctx.members t dir).2.kind child = kind := congrArg Node.kind hnode
  simp only [Tree.entry, hkind]
  exact ho.shown

/-- Below a page that may not be viewed nothing is listed. -/
theorem list_of_hidden {page : Page} (hl : ctx.lookup path = .ok (id, t)) (hk : t.kind id = .page page)
    (hview : ctx.canView page = false) : ctx.list path = .ok [] := by
  have hnone : ctx.candidates t id = [] := by
    simp [candidates, stored?, hk, hview]
  rw [list_of_lookup hl (by rw [hk]; rfl), members, hnone]
  rfl

/-! ## Looking at and reading a node -/

/-- The check before a node is looked at or read. -/
theorem requireReadable_eq_ok : ctx.requireReadable kind = .ok () ↔
    ctx.caller.policy.Shows kind.reference? := by
  simp only [requireReadable]
  split
  next page hr =>
    rw [require_eq_ok, hr]
    exact ⟨fun h => Policy.shows_of_grants h, fun h => h _ rfl rfl⟩
  next a hr =>
    rw [require_eq_ok, hr]
    exact ⟨fun h => Policy.shows_of_grants h, fun h => h _ rfl rfl⟩
  next hpage hattachment =>
    refine iff_of_true rfl fun e he hg => ?_
    cases e with
    | space space => cases hg
    | page page => exact absurd he (hpage page)
    | attachment a => exact absurd he (hattachment a)

theorem requireReadable_of_hidden {e : Entity} (hr : kind.reference? = some e)
    (hg : e.isGuarded = true) (hview : ctx.caller.policy.grants .view e = false) :
    ctx.requireReadable kind = .error (.forbidden .view e.label) := by
  have hrefused : ctx.require .view e = .error (.forbidden .view e.label) := by
    have hnot : ctx.holds .view e = false := hview
    simp [require, hnot]
  cases e with
  | space space => cases hg
  | page page => simpa only [requireReadable, hr] using hrefused
  | attachment a => simpa only [requireReadable, hr] using hrefused

theorem stat_shown {found : Stat} (h : ctx.stat path = .ok found) :
    ctx.caller.policy.Shows found.entry.reference := by
  obtain ⟨id, t, _, hreadable, ⟨_, rfl⟩ | ⟨_, _, _, _, _, rfl⟩⟩ := stat_eq_ok.1 h
  · exact requireReadable_eq_ok.1 hreadable
  · exact requireReadable_eq_ok.1 hreadable

theorem read_shown {data : Bytes} (h : ctx.read path = .ok data) :
    ∃ id t, ctx.lookup path = .ok (id, t) ∧ ctx.caller.policy.Shows (t.kind id).reference? := by
  obtain ⟨id, t, hl, hreadable, _⟩ := read_eq_ok.1 h
  exact ⟨id, t, hl, requireReadable_eq_ok.1 hreadable⟩

/-- A node that may not be viewed is neither looked at nor read. -/
theorem read_of_hidden {e : Entity} (hl : ctx.lookup path = .ok (id, t))
    (hr : (t.kind id).reference? = some e) (hg : e.isGuarded = true)
    (hview : ctx.caller.policy.grants .view e = false) :
    ctx.stat path = .error (.forbidden .view e.label) ∧
      ctx.read path = .error (.forbidden .view e.label) := by
  have hrefused := requireReadable_of_hidden hr hg hview
  constructor
  · simp only [stat, hl, bind, Except.bind, hrefused]
  · simp only [read, hl, bind, Except.bind, hrefused]

end Context

namespace Service

/-- Listing, looking at and reading show no page and no attachment without the right to view it: a
listing leaves such members out and is empty at such a page, looking and reading are forbidden. -/
theorem handle_shows (s : Service) (caller : Caller) (path : String) :
    (∀ entries, (s.handle caller (.list path)).1 = .ok (.entries entries) →
      ∀ entry ∈ entries, caller.policy.Shows entry.reference) ∧
    (∀ found, (s.handle caller (.stat path)).1 = .ok (.stat found) →
      caller.policy.Shows found.entry.reference) ∧
    (∀ data, (s.handle caller (.read path)).1 = .ok (.content data) →
      ∃ id t, (s.context caller .read).lookup path = .ok (id, t) ∧
        caller.policy.Shows (t.kind id).reference?) ∧
    ∀ id t e, (s.context caller .read).lookup path = .ok (id, t) →
      (t.kind id).reference? = some e → e.isGuarded = true → caller.policy.grants .view e = false →
        (s.handle caller (.stat path)).1 = .error (.forbidden .view e.label) ∧
        (s.handle caller (.read path)).1 = .error (.forbidden .view e.label) ∧
        ((t.kind id).isPage = true → (s.handle caller (.list path)).1 = .ok (.entries [])) := by
  refine ⟨fun entries h => ?_, fun found h => ?_, fun data h => ?_, fun id t e hl hr hg hview => ?_⟩
  · rw [handle_list] at h
    obtain ⟨_, hlist, heq⟩ := Except.map_eq_ok.1 h
    exact Context.list_shown (Response.entries.inj heq ▸ hlist)
  · rw [handle_stat] at h
    obtain ⟨_, hstat, heq⟩ := Except.map_eq_ok.1 h
    exact Context.stat_shown (Response.stat.inj heq ▸ hstat)
  · rw [handle_read] at h
    obtain ⟨_, hread, _⟩ := Except.map_eq_ok.1 h
    exact Context.read_shown hread
  · obtain ⟨hstat, hread⟩ := Context.read_of_hidden hl hr hg hview
    refine ⟨?_, ?_, fun hpage => ?_⟩
    · rw [handle_stat, hstat]
      rfl
    · rw [handle_read, hread]
      rfl
    · obtain ⟨page, hown⟩ := Option.isSome_iff_exists.1 hpage
      have hk := NodeKind.eq_page_of_page? hown
      rw [hk] at hr
      obtain rfl := Option.some.inj hr
      rw [handle_list, Context.list_of_hidden hl hk hview]
      rfl

/-- Of two pages in a space one is hidden: its space lists the other one only. -/
theorem handle_shows_beside_hidden :
    let a := Page.inSpace "A" (.topLevel "Main")
    let b := Page.inSpace "B" (.topLevel "Main")
    let s := Service.new (.ofStore (.ofPages [a, b])) .standard
    let caller : Caller := ⟨.anonymous, ⟨"HideB", fun _ e => e != .page b⟩⟩
    (∃ entries, (s.handle caller (.list "/spaces/Main")).1 = .ok (.entries entries) ∧
      entries.map Entry.reference = [some (.page a)] ∧
      ∀ entry ∈ entries, caller.policy.Shows entry.reference) ∧
    (s.handle caller (.stat "/spaces/Main/B")).1 = .error (.forbidden .view "page Main.B") ∧
    (s.handle caller (.read "/spaces/Main/B")).1 = .error (.forbidden .view "page Main.B") ∧
    (s.handle caller (.list "/spaces/Main/B")).1 = .ok (.entries []) := by
  intro a b s caller
  let t : Tree := ⟨#[.root, ⟨.baseView .pages, "spaces", some 0, none⟩,
    ⟨.space (.topLevel "Main") .pages, "Main", some 1, none⟩, ⟨.page b, "B", some 2, none⟩]⟩
  have hl : (s.context caller .read).lookup "/spaces/Main/B" = .ok (3, t) := by
    dsimp only [s, caller, t, a, b]
    rfl
  have hlist : (s.handle caller (.list "/spaces/Main")).1 =
      .ok (.entries [⟨"Main.A", "/spaces/Main/A", .page, true, some (.page a)⟩]) := by
    dsimp only [s, caller, a, b]
    rfl
  have hhidden : caller.policy.grants .view (.page b) = false := by decide
  have hlabel : (Entity.page b).label = "page Main.B" := by decide
  obtain ⟨hstat, hread, hbelow⟩ :=
    (s.handle_shows caller "/spaces/Main/B").2.2.2 3 t (.page b) hl rfl rfl hhidden
  rw [hlabel] at hstat hread
  exact ⟨⟨_, hlist, rfl, (s.handle_shows caller "/spaces/Main").1 _ hlist⟩, hstat, hread, hbelow rfl⟩

end Service

end WikiMount
