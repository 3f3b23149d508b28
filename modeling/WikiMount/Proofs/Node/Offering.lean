import WikiMount.Node.Members
import WikiMount.Proofs.Storage.RepositoryWrites

/-!
# The rules of listing

What a listing offers below a node is given by one rule for each kind of the node and of what is
offered. A rule says what the repository or the scratch files must answer, and which token the offered
node is reached by. The candidates of a listing are exactly what a rule offers.
-/

namespace WikiMount

namespace Context

/-- What is listed below a node of a kind: the kind of a member and the token it is reached by. The
node itself matters for the pages that would close a cycle and for the scratch files. -/
inductive Offers (ctx : Context) (t : Tree) (id : Nat) : NodeKind → NodeKind → String → Prop
  | view (view : View) :
      Offers ctx t id .root (.baseView view) (NodeKind.baseView view).displayName
  | orphans : Offers ctx t id .root .orphans NodeKind.orphans.displayName
  | topLevel {name : String} (h : name ∈ listed ctx.repository.topLevelSpaces) :
      Offers ctx t id (.baseView .pages) (.space (.topLevel name) .pages) name
  | space {space : Space} (h : space ∈ listed ctx.repository.allSpaces) :
      Offers ctx t id (.baseView .attachments) (.space space .attachments) space.text
  | orphan {page : Page} (h : page ∈ listed ctx.repository.orphans) (hview : ctx.canView page = true) :
      Offers ctx t id .orphans (.page page) page.text
  | nested {space : Space} {name : String} (h : name ∈ listed (ctx.repository.spacesIn space)) :
      Offers ctx t id (.space space .pages) (.space (space.child name) .pages) name
  | own {space : Space} {kind : NodeKind} {segment : String}
      (h : (kind, segment) ∈
        ctx.grouped (.pageGroup space) (ctx.visible (listed (ctx.repository.pagesIn space)))) :
      Offers ctx t id (.space space .pages) kind segment
  | holder {space : Space} {kind : NodeKind} {segment : String}
      (h : (kind, segment) ∈ ctx.grouped (.attachmentGroup space)
        (ctx.visible (listed (ctx.repository.pagesWithFiles space)))) :
      Offers ctx t id (.space space .attachments) kind segment
  | grouped {space : Space} {group : LetterGroup} {page : Page}
      (h : page ∈ listed (ctx.repository.pagesBeginning space group.key))
      (hview : ctx.canView page = true) :
      Offers ctx t id (.pageGroup space group) (.page page) page.name
  | groupedHolder {space : Space} {group : LetterGroup} {page : Page}
      (h : page ∈ listed (ctx.repository.pagesWithFiles space))
      (hgroup : group.holds page.name = true) (hview : ctx.canView page = true) :
      Offers ctx t id (.attachmentGroup space group) (.page page) page.name
  | child {page child : Page} (hpage : ctx.canView page = true)
      (h : child ∈ listed (ctx.repository.childrenOf page))
      (hcycle : t.closesCycle id child.text = false) (hview : ctx.canView child = true) :
      Offers ctx t id (.page page) (.page child) (childToken page child)
  | attachment {page : Page} {file : String} (hpage : ctx.canView page = true)
      (h : file ∈ listed (ctx.repository.files page))
      (hview : ctx.holds .view (.attachment ⟨page, file⟩) = true) :
      Offers ctx t id (.page page) (.attachment ⟨page, file⟩) file
  | wikiFile {page : Page} (hpage : ctx.canView page = true) (format : FileFormat) :
      Offers ctx t id (.page page) (.wikiFile page format) format.fileName
  | scratch {parent : NodeKind} {files : Scratch} {name : String}
      (hparent : parent.capabilities.canDecode = true)
      (hpage : ∀ page, parent = .page page → ctx.canView page = true)
      (hfiles : ctx.scratch = some files) (h : name ∈ files.namesIn (t.path id)) :
      Offers ctx t id parent (.scratch name) name

variable {ctx : Context} {t : Tree} {id : Nat} {kind : NodeKind} {segment : String}

theorem mem_listed_asked {α : Type} {r : Repository} {m : Method} {l : List α} {a : α} :
    a ∈ listed (r.asked m (.ok l)) ↔ m ∉ r.broken ∧ a ∈ l := by
  simp only [Repository.asked]
  split <;> simp_all [listed]

theorem listed_asked {α : Type} {r : Repository} {m : Method} {l : List α} (hbroken : r.broken = []) :
    listed (r.asked m (.ok l)) = l := by
  rw [Repository.asked_of_working hbroken]
  rfl

theorem mem_listed {α : Type} {r : Repository} {m : Method} {l : List α} {a : α}
    (hbroken : r.broken = []) (h : a ∈ l) : a ∈ listed (r.asked m (.ok l)) := by
  rwa [listed_asked hbroken]

theorem mem_visible {pages : List Page} {page : Page} :
    page ∈ ctx.visible pages ↔ page ∈ pages ∧ ctx.canView page = true :=
  List.mem_filter

/-- A list of pages is offered page by page or by the groups of their names. -/
theorem grouped_cases {asGroup : LetterGroup → NodeKind} {pages : List Page}
    (h : (kind, segment) ∈ ctx.grouped asGroup pages) :
    (∃ page ∈ pages, kind = .page page ∧ segment = page.name) ∨
      ∃ g, (∃ letters, g ∈ groups (pages.map Page.name) letters) ∧
        kind = asGroup g ∧ segment = (asGroup g).displayName := by
  simp only [grouped] at h
  split at h
  · obtain ⟨page, hpage, heq⟩ := List.mem_map.1 h
    cases heq
    exact .inl ⟨page, hpage, rfl, rfl⟩
  next letters _ =>
    obtain ⟨g, hg, heq⟩ := List.mem_map.1 h
    cases heq
    exact .inr ⟨g, ⟨_, hg⟩, rfl, rfl⟩

/-- Neither files nor scratch files are among pages and their groups. -/
theorem not_mem_grouped {asGroup : LetterGroup → NodeKind} {pages : List Page}
    (hpage : ∀ page, kind ≠ .page page) (hgroup : ∀ g, kind ≠ asGroup g) :
    (kind, segment) ∉ ctx.grouped asGroup pages := by
  intro h
  obtain ⟨page, _, hkind, _⟩ | ⟨g, _, hkind, _⟩ := grouped_cases h
  · exact hpage page hkind
  · exact hgroup g hkind

theorem offers_of_stored {stored : List Candidate} (h : ctx.stored? t id = some stored)
    (hmem : (kind, segment) ∈ stored) : ctx.Offers t id (t.kind id) kind segment := by
  simp only [stored?] at h
  split at h
  next hk =>
    obtain rfl := Option.some.inj h
    rw [hk]
    simp only [Candidate.named, List.mem_cons, List.not_mem_nil, or_false, Prod.mk.injEq] at hmem
    obtain ⟨rfl, rfl⟩ | ⟨rfl, rfl⟩ | ⟨rfl, rfl⟩ := hmem
    · exact .view .pages
    · exact .view .attachments
    · exact .orphans
  next hk =>
    obtain rfl := Option.some.inj h
    rw [hk]
    obtain ⟨name, hname, heq⟩ := List.mem_map.1 hmem
    cases heq
    exact .topLevel hname
  next hk =>
    obtain rfl := Option.some.inj h
    rw [hk]
    obtain ⟨space, hspace, heq⟩ := List.mem_map.1 hmem
    cases heq
    exact .space hspace
  next hk =>
    obtain rfl := Option.some.inj h
    rw [hk]
    obtain ⟨page, hpage, heq⟩ := List.mem_map.1 hmem
    cases heq
    exact .orphan (mem_visible.1 hpage).1 (mem_visible.1 hpage).2
  next space hk =>
    obtain rfl := Option.some.inj h
    rw [hk]
    rcases List.mem_append.1 hmem with hmem | hmem
    · obtain ⟨name, hname, heq⟩ := List.mem_map.1 hmem
      have hsegment : (NodeKind.space (space.child name) .pages).displayName = name :=
        Space.name_child space name
      cases heq
      rw [hsegment]
      exact .nested hname
    · exact .own hmem
  next space hk =>
    obtain rfl := Option.some.inj h
    rw [hk]
    exact .holder hmem
  next space group hk =>
    obtain rfl := Option.some.inj h
    rw [hk]
    obtain ⟨page, hpage, heq⟩ := List.mem_map.1 hmem
    cases heq
    exact .grouped (mem_visible.1 hpage).1 (mem_visible.1 hpage).2
  next space group hk =>
    obtain rfl := Option.some.inj h
    rw [hk]
    obtain ⟨page, hpage, heq⟩ := List.mem_map.1 hmem
    cases heq
    obtain ⟨hlisted, hgroup⟩ := List.mem_filter.1 (mem_visible.1 hpage).1
    exact .groupedHolder hlisted hgroup (mem_visible.1 hpage).2
  next page hk =>
    rw [hk]
    split at h
    next hpage =>
      obtain rfl := Option.some.inj h
      rcases List.mem_append.1 hmem with hmem | hmem
      · rcases List.mem_append.1 hmem with hmem | hmem
        · obtain ⟨child, hchild, heq⟩ := List.mem_map.1 hmem
          cases heq
          obtain ⟨hlisted, hkept⟩ := List.mem_filter.1 hchild
          simp only [Bool.and_eq_true, Bool.not_eq_true'] at hkept
          exact .child hpage hlisted hkept.1 hkept.2
        · obtain ⟨a, ha, heq⟩ := List.mem_map.1 hmem
          cases heq
          obtain ⟨hlisted, hview⟩ := List.mem_filter.1 ha
          obtain ⟨file, hfile, rfl⟩ := List.mem_map.1 hlisted
          exact .attachment hpage hfile hview
      · simp only [wikiFiles, Candidate.named, List.mem_cons, List.not_mem_nil, or_false,
          Prod.mk.injEq] at hmem
        obtain ⟨rfl, rfl⟩ | ⟨rfl, rfl⟩ := hmem
        · exact .wikiFile hpage .text
        · exact .wikiFile hpage .xml
    · cases h
  all_goals cases h

/-- Nothing is listed below files and below a page that may not be viewed. -/
theorem stored?_eq_none : ctx.stored? t id = none ↔ (t.kind id).capabilities.canDecode = false ∨
    ∃ page, t.kind id = .page page ∧ ctx.canView page = false := by
  simp only [stored?]
  split <;> simp_all [NodeKind.capabilities]

theorem mem_scratchFiles {path : String} {c : Candidate} : c ∈ ctx.scratchFiles path ↔
    ∃ files, ctx.scratch = some files ∧ ∃ name ∈ files.namesIn path, c = .named (.scratch name) := by
  simp only [scratchFiles]
  split <;> simp_all [eq_comm]

theorem mem_candidates_of_stored {stored : List Candidate} (hstored : ctx.stored? t id = some stored)
    (h : (kind, segment) ∈ stored) : (kind, segment) ∈ ctx.candidates t id := by
  simp only [candidates, hstored]
  exact List.mem_append.2 (.inl h)

theorem mem_candidates_of_offers (h : ctx.Offers t id (t.kind id) kind segment) :
    (kind, segment) ∈ ctx.candidates t id := by
  have hpages : ∀ {pages : List Page} {page : Page}, page ∈ pages → ctx.canView page = true →
      page ∈ ctx.visible pages := fun h hview => mem_visible.2 ⟨h, hview⟩
  generalize hk : t.kind id = parent at h
  cases h with
  | view view =>
    refine mem_candidates_of_stored (by simp only [stored?, hk]; rfl) ?_
    cases view <;> simp [Candidate.named]
  | orphans =>
    refine mem_candidates_of_stored (by simp only [stored?, hk]; rfl) ?_
    simp [Candidate.named]
  | topLevel h =>
    refine mem_candidates_of_stored (by simp only [stored?, hk]; rfl) ?_
    exact List.mem_map.2 ⟨segment, h, rfl⟩
  | @space space h =>
    refine mem_candidates_of_stored (by simp only [stored?, hk]; rfl) ?_
    exact List.mem_map.2 ⟨space, h, rfl⟩
  | @orphan page h hview =>
    refine mem_candidates_of_stored (by simp only [stored?, hk]; rfl) ?_
    exact List.mem_map.2 ⟨page, hpages h hview, rfl⟩
  | @nested space _ h =>
    refine mem_candidates_of_stored (by simp only [stored?, hk]; rfl) ?_
    have hnamed : Candidate.named (.space (space.child segment) .pages) =
        (.space (space.child segment) .pages, segment) :=
      congrArg (Prod.mk _) (Space.name_child space segment)
    exact List.mem_append.2 (.inl (List.mem_map.2 ⟨segment, h, hnamed⟩))
  | own h =>
    refine mem_candidates_of_stored (by simp only [stored?, hk]; rfl) ?_
    exact List.mem_append.2 (.inr h)
  | holder h => exact mem_candidates_of_stored (by simp only [stored?, hk]) h
  | @grouped space group page h hview =>
    refine mem_candidates_of_stored (by simp only [stored?, hk]; rfl) ?_
    exact List.mem_map.2 ⟨page, hpages h hview, rfl⟩
  | @groupedHolder space group page h hgroup hview =>
    refine mem_candidates_of_stored (by simp only [stored?, hk]; rfl) ?_
    exact List.mem_map.2 ⟨page, hpages (List.mem_filter.2 ⟨h, hgroup⟩) hview, rfl⟩
  | @child page child hpage h hcycle hview =>
    refine mem_candidates_of_stored (by simp only [stored?, hk, hpage]; rfl) ?_
    have hkept : (!t.closesCycle id child.text && ctx.canView child) = true := by
      simp [hcycle, hview]
    refine List.mem_append.2 (.inl (List.mem_append.2 (.inl ?_)))
    exact List.mem_map.2 ⟨child, List.mem_filter.2 ⟨h, hkept⟩, rfl⟩
  | attachment hpage h hview =>
    refine mem_candidates_of_stored (by simp only [stored?, hk, hpage]; rfl) ?_
    refine List.mem_append.2 (.inl (List.mem_append.2 (.inr ?_)))
    refine List.mem_map.2 ⟨_, List.mem_filter.2 ⟨?_, hview⟩, rfl⟩
    exact List.mem_map.2 ⟨_, h, rfl⟩
  | @wikiFile page hpage format =>
    refine mem_candidates_of_stored (by simp only [stored?, hk, hpage]; rfl) ?_
    refine List.mem_append.2 (.inr ?_)
    cases format with
    | text => exact .head _
    | xml => exact .tail _ (.head _)
  | scratch hparent hpage hfiles h =>
    cases hstored : ctx.stored? t id with
    | none =>
      rcases stored?_eq_none.1 hstored with hleaf | ⟨page, hkind, hview⟩
      · rw [hk, hparent] at hleaf
        cases hleaf
      · rw [hpage page (hk.symm.trans hkind)] at hview
        cases hview
    | some stored =>
      simp only [candidates, hstored]
      exact List.mem_append.2 (.inr (mem_scratchFiles.2 ⟨_, hfiles, _, h, rfl⟩))

/-- A listing offers what the rules say and nothing else. -/
theorem mem_candidates_iff :
    (kind, segment) ∈ ctx.candidates t id ↔ ctx.Offers t id (t.kind id) kind segment := by
  refine ⟨fun h => ?_, mem_candidates_of_offers⟩
  simp only [candidates] at h
  split at h
  next stored hstored =>
    rcases List.mem_append.1 h with h | h
    · exact offers_of_stored hstored h
    · obtain ⟨files, hfiles, name, hname, heq⟩ := mem_scratchFiles.1 h
      cases heq
      have hsome : ctx.stored? t id ≠ none := by simp [hstored]
      rw [Ne, stored?_eq_none, not_or, not_exists] at hsome
      refine .scratch (by simpa using hsome.1) (fun page hk => ?_) hfiles hname
      simpa [hk] using hsome.2 page
  · cases h

end Context

end WikiMount
