import WikiMount.Proofs.Node.ListedPaths
import WikiMount.Proofs.Session.ScratchPlaces

/-!
# What is listed is there

A listing and the test for existence ask the repository different questions. A query that names a member
answers for something that is stored, a letter group is made of pages that it holds, and a page that holds
files is stored, so the answers agree. They differ where the listing asks nothing: a directory need not be
there to be listed, and the two files of a page are listed whether or not the page is stored.
-/

namespace WikiMount

namespace Context

/-- What is listed below a node and is not there: a file view of a page that is not stored, and in the root
the name of a scratch file that is filed under another path. -/
inductive Absent (ctx : Context) : NodeKind → NodeKind → Prop
  | wikiFile {page : Page} {format : FileFormat} (h : ctx.repository.hasPage page = false) :
      Absent ctx (.page page) (.wikiFile page format)
  | misplaced {files : Scratch} {name : String} (hfiles : ctx.scratch = some files)
      (h : files.contains (Path.below "/" name) = false) : Absent ctx .root (.scratch name)

variable {ctx : Context} {t t' : Tree} {dir child : Nat} {ids : List Nat} {parent kind : NodeKind}
  {segment path name : String}

theorem finds_asked {α : Type} {r : Repository} {m : Method} {l : List α} {p : α → Bool}
    (hbroken : r.broken = []) : finds (r.asked m (.ok l)) p = true ↔ ∃ a ∈ l, p a = true := by
  rw [Repository.asked_of_working hbroken]
  exact List.any_eq_true

/-- Whatever a query answers with is there. -/
theorem Offers.present (h : ctx.Offers t dir parent kind segment)
    (hs : ctx.repository.store.Reachable) (hbroken : ctx.repository.broken = [])
    (hk : t'.kind child = kind) (hview : ∀ page format, kind ≠ .wikiFile page format)
    (hscratch : ∀ name, kind ≠ .scratch name) : ctx.isPresent t' child = true := by
  have hcoherent := hs.coherent
  have hupkept := hs.upkept
  simp only [isPresent, hk]
  cases h with
  | view => rfl
  | orphans => rfl
  | topLevel h => exact Store.mem_topLevelSpaces.1 (mem_listed_asked.1 h).2
  | space h => exact Store.mem_allSpaces.1 (mem_listed_asked.1 h).2
  | orphan h => exact Store.hasPage_of_mem_orphans hcoherent (mem_listed_asked.1 h).2
  | nested h => exact Store.hasSpace_of_mem_spacesIn (mem_listed_asked.1 h).2
  | own h =>
    obtain ⟨page, hpage, rfl, _⟩ | ⟨g, hg, rfl, _⟩ := grouped_cases h
    · exact (Store.mem_pagesIn.1 (mem_listed_asked.1 (mem_visible.1 hpage).1).2).1
    · obtain ⟨page, hpage, hholds⟩ := LetterGroup.holds_of_mem_groups hg
      obtain ⟨hstored, hin⟩ := Store.mem_pagesIn.1 (mem_listed_asked.1 (mem_visible.1 hpage).1).2
      have hbegins := LetterGroup.mem_pagesBeginning_key.2 ⟨hstored, hin, hholds⟩
      exact (finds_asked hbroken).2 ⟨page, hbegins, rfl⟩
  | holder h =>
    obtain ⟨page, hpage, rfl, _⟩ | ⟨g, hg, rfl, _⟩ := grouped_cases h
    · obtain ⟨_, hfiled⟩ :=
        Store.mem_pagesWithFiles.1 (mem_listed_asked.1 (mem_visible.1 hpage).1).2
      exact hupkept.hasPage_of_files hfiled
    · obtain ⟨page, hpage, hholds⟩ := LetterGroup.holds_of_mem_groups hg
      have hlisted := (mem_listed_asked.1 (mem_visible.1 hpage).1).2
      exact (finds_asked hbroken).2 ⟨page, hlisted, hholds⟩
  | grouped h => exact (LetterGroup.mem_pagesBeginning_key.1 (mem_listed_asked.1 h).2).1
  | groupedHolder h =>
    exact hupkept.hasPage_of_files (Store.mem_pagesWithFiles.1 (mem_listed_asked.1 h).2).2
  | child _ h => exact Store.hasPage_of_mem_childrenOf hcoherent (mem_listed_asked.1 h).2
  | attachment _ h =>
    exact (finds_asked hbroken).2 ⟨segment, (mem_listed_asked.1 h).2, beq_self_eq_true _⟩
  | wikiFile => exact absurd rfl (hview _ _)
  | scratch => exact absurd rfl (hscratch _)

theorem Offers.page_of_wikiFile {page : Page} {format : FileFormat}
    (h : ctx.Offers t dir parent (.wikiFile page format) segment) : parent = .page page := by
  cases h with
  | own h => exact absurd h (not_mem_grouped (by simp) (by simp))
  | holder h => exact absurd h (not_mem_grouped (by simp) (by simp))
  | wikiFile => rfl

theorem Offers.name_of_scratch (h : ctx.Offers t dir parent (.scratch name) segment) :
    segment = name ∧ ∃ files, ctx.scratch = some files ∧ name ∈ files.namesIn (t.path dir) := by
  cases h with
  | own h => exact absurd h (not_mem_grouped (by simp) (by simp))
  | holder h => exact absurd h (not_mem_grouped (by simp) (by simp))
  | scratch _ _ hfiles hname => exact ⟨rfl, _, hfiles, hname⟩

/-- A scratch file among the members of a node, where the storage lists it. -/
theorem member_scratch (hl : ctx.lookup path = .ok (dir, t)) (hm : ctx.members t dir = (ids, t'))
    (hchild : child ∈ ids) (hk : t'.kind child = .scratch name) :
    ∃ files, ctx.scratch = some files ∧ name ∈ files.namesIn (t.path dir) ∧
      ctx.isPresent t' child = files.contains (Path.below (t.path dir) name) := by
  obtain ⟨ht, hdir⟩ := lookup_resolved hl
  obtain ⟨kind, segment, hoffer, _, hnode⟩ := members_sound ht.ordered hdir hm hchild
  obtain rfl : kind = .scratch name := (congrArg Node.kind hnode).symm.trans hk
  have hpath := member_path hl hm hchild
  rw [hnode] at hpath
  obtain ⟨rfl, files, hfiles, hname⟩ := hoffer.name_of_scratch
  refine ⟨files, hfiles, hname, ?_⟩
  simp only [isPresent, hk, hfiles, hpath, Option.any_some]

/-- Scratch files that are listed under their paths are there. -/
theorem member_scratch_present (hplaced : ∀ files, ctx.scratch = some files → files.Placed)
    (hl : ctx.lookup path = .ok (dir, t)) (hm : ctx.members t dir = (ids, t')) (hchild : child ∈ ids)
    (hk : t'.kind child = .scratch name) : ctx.isPresent t' child = true := by
  obtain ⟨files, hfiles, hname, hpresent⟩ := member_scratch hl hm hchild hk
  rw [hpresent]
  exact Scratch.contains_of_mem_namesIn (.inr (hplaced files hfiles)) hname

/-- Of the members of a node those are there that are not absent. -/
theorem member_present_iff (hs : ctx.repository.store.Reachable) (hbroken : ctx.repository.broken = [])
    (hl : ctx.lookup path = .ok (dir, t)) (hm : ctx.members t dir = (ids, t')) (hchild : child ∈ ids) :
    ctx.isPresent t' child = true ↔ ¬ctx.Absent (t.kind dir) (t'.kind child) := by
  obtain ⟨ht, hdir⟩ := lookup_resolved hl
  obtain ⟨kind, segment, hoffer, _, hnode⟩ := members_sound ht.ordered hdir hm hchild
  have hkind : t'.kind child = kind := congrArg Node.kind hnode
  have hroot := kind_eq_root_iff hl
  rw [hkind]
  generalize t.kind dir = parent at hoffer hroot
  cases kind with
  | wikiFile page format =>
    obtain rfl := hoffer.page_of_wikiFile
    simp only [isPresent, hkind]
    rw [← Bool.not_eq_false, not_iff_not]
    exact ⟨.wikiFile, fun habsent => by cases habsent with | wikiFile h => exact h⟩
  | scratch name =>
    obtain ⟨files, hfiles, hname, hpresent⟩ := member_scratch hl hm hchild hkind
    rw [hpresent]
    by_cases htop : t.path dir = "/"
    · obtain rfl := hroot.2 htop
      rw [htop, ← Bool.not_eq_false, not_iff_not]
      refine ⟨.misplaced hfiles, fun habsent => ?_⟩
      cases habsent with
      | misplaced hfound h => rwa [Option.some.inj (hfiles.symm.trans hfound)]
    · refine iff_of_true (Scratch.contains_of_mem_namesIn (.inl htop) hname) ?_
      rintro ⟨⟩
      exact htop (hroot.1 rfl)
  | _ =>
    refine iff_of_true (hoffer.present hs hbroken hkind (by simp) (by simp)) ?_
    rintro ⟨⟩

end Context

namespace Service

/-- Whatever a listing answers with is there, apart from the two files of a page that is not stored and, in
the root, names of scratch files that are filed under other paths. Requests leave no such scratch files. -/
theorem handle_list_present {s : Service} {caller : Caller} {path : String} {entries : List Entry}
    (hs : s.repository.store.Reachable) (hbroken : s.repository.broken = [])
    (h : (s.handle caller (.list path)).1 = .ok (.entries entries)) :
    ∃ dir t ids t', (s.context caller .read).lookup path = .ok (dir, t) ∧
      (s.context caller .read).members t dir = (ids, t') ∧ entries = ids.map t'.entry ∧
      ∀ child ∈ ids,
        ((s.context caller .read).isPresent t' child = true ↔
          ¬(s.context caller .read).Absent (t.kind dir) (t'.kind child)) ∧
        (s.Serving → ∀ name, t'.kind child = .scratch name →
          (s.context caller .read).isPresent t' child = true) := by
  obtain ⟨dir, t, hl, hentries⟩ := Context.list_eq_ok (list_of_handle h)
  refine ⟨dir, t, _, _, hl, rfl, hentries, fun child hchild => ⟨?_, fun hserving name hk => ?_⟩⟩
  · exact Context.member_present_iff hs hbroken hl rfl hchild
  · exact Context.member_scratch_present (context_placed hserving.placed caller _) hl rfl hchild hk

/-- The files of a stored page are listed and are there. -/
theorem handle_list_present_of_stored :
    let a := Page.inSpace "A" (.topLevel "Main")
    let s := Service.new (.ofStore (.ofPages [a])) .standard
    let caller : Caller := ⟨.anonymous, .allowAll⟩
    ∃ t', t'.kind 4 = .wikiFile a .text ∧ (s.context caller .read).isPresent t' 4 = true := by
  intro a s caller
  let ctx := s.context caller .read
  let t : Tree := ⟨#[.root, ⟨.baseView .pages, "spaces", some 0, none⟩,
    ⟨.space (.topLevel "Main") .pages, "Main", some 1, none⟩, ⟨.page a, "A", some 2, none⟩]⟩
  let t' : Tree := ⟨t.nodes ++ #[⟨.wikiFile a .text, "wiki.txt", some 3, none⟩,
    ⟨.wikiFile a .xml, "wiki.xml", some 3, none⟩]⟩
  have hl : ctx.lookup "/spaces/Main/A" = .ok (3, t) := by
    dsimp only [ctx, s, caller, t, a]
    rfl
  have hm : ctx.members t 3 = ([4, 5], t') := by
    dsimp only [ctx, s, caller, t', t, a]
    rfl
  have hok : (s.handle caller (.list "/spaces/Main/A")).1 = .ok (.entries ([4, 5].map t'.entry)) := by
    dsimp only [s, caller, t', t, a]
    rfl
  have hkind : t'.kind 4 = .wikiFile a .text := by
    dsimp only [t', t, a]
    rfl
  have hstored : ctx.repository.hasPage a = true := by decide
  obtain ⟨dir, u, ids, u', hl', hm', _, hpresent⟩ :=
    handle_list_present (Store.reachable_ofPages _) rfl hok
  obtain ⟨rfl, rfl⟩ : 3 = dir ∧ t = u := Prod.mk.inj (Except.ok.inj (hl.symm.trans hl'))
  obtain ⟨rfl, rfl⟩ : [4, 5] = ids ∧ t' = u' := Prod.mk.inj (hm.symm.trans hm')
  refine ⟨t', hkind, (hpresent 4 (.head _)).1.2 fun habsent => ?_⟩
  rw [hkind] at habsent
  cases habsent with
  | wikiFile h => exact absurd (hstored.symm.trans h) (by decide)

/-- The files of a page that is not stored are listed, and so is in the root a scratch file whose path has
no slash. Neither is there. -/
theorem listed_and_not_there :
    let a := Page.inSpace "A" (.topLevel "Main")
    let b := Page.inSpace "B" (.topLevel "Main")
    let s := Service.new (.ofStore (.ofPages [a])) .standard
    let caller : Caller := ⟨.anonymous, .allowAll⟩
    let left : Service :=
      { s with sessions := (s.sessions.getOrCreate "anonymous").2.setStorage 0 (.write .empty "x" .empty) }
    let listsAbsent := fun (s : Service) (path : String) (kind : NodeKind) =>
      ∃ dir t ids t', (s.context caller .read).lookup path = .ok (dir, t) ∧
        (s.context caller .read).members t dir = (ids, t') ∧
        (s.handle caller (.list path)).1 = .ok (.entries (ids.map t'.entry)) ∧
        ∃ child ∈ ids, t'.kind child = kind ∧ (s.context caller .read).isPresent t' child = false
    s.repository.store.Reachable ∧ s.repository.broken = [] ∧
      listsAbsent s "/spaces/Main/A/B" (.wikiFile b .text) ∧ listsAbsent left "/" (.scratch "x") := by
  intro a b s caller left listsAbsent
  let t : Tree := ⟨#[.root, ⟨.baseView .pages, "spaces", some 0, none⟩,
    ⟨.space (.topLevel "Main") .pages, "Main", some 1, none⟩, ⟨.page a, "A", some 2, none⟩,
    ⟨.page b, "B", some 3, none⟩]⟩
  let t' : Tree := ⟨t.nodes ++ #[⟨.wikiFile b .text, "wiki.txt", some 4, none⟩,
    ⟨.wikiFile b .xml, "wiki.xml", some 4, none⟩]⟩
  let top : Tree := ⟨#[.root, ⟨.baseView .pages, "spaces", some 0, none⟩,
    ⟨.baseView .attachments, "attachments", some 0, none⟩, ⟨.orphans, "orphans", some 0, none⟩,
    ⟨.scratch "x", "x", some 0, none⟩]⟩
  refine ⟨Store.reachable_ofPages _, rfl, ⟨4, t, [5, 6], t', ?_, ?_, ?_, 5, .head _, ?_, ?_⟩,
    ⟨0, .new, [1, 2, 3, 4], top, ?_, ?_, ?_, 4, by decide, ?_, ?_⟩⟩
  · dsimp only [s, caller, t, a, b]
    rfl
  · dsimp only [s, caller, t', t, a, b]
    rfl
  · dsimp only [s, caller, t', t, a, b]
    rfl
  · dsimp only [t', t, a, b]
    rfl
  · dsimp only [s, caller, t', t, a, b]
    rfl
  · dsimp only [left, s, caller, a]
    rfl
  · dsimp only [left, s, caller, top, a]
    rfl
  · dsimp only [left, s, caller, top, a]
    rfl
  · dsimp only [top]
    rfl
  · dsimp only [left, s, caller, top, a]
    rfl

end Service

end WikiMount
