import WikiMount.Proofs.Node.ListedPaths
import WikiMount.Proofs.Session.ScratchPlaces

/-!
# Entries of one path

A listing puts several sources together: the spaces and the pages of a space, the child pages, files and
file views of a page, and the scratch files of a directory. Each source gives every member a token of its
own, since names are read back from their texts and a space has one page of each name. So two entries
have one path only if different sources use one token, and that happens in as many ways as there are
pairs of sources in one directory. The root may list two scratch files of one name, if not both of them
are filed where they are listed.
-/

namespace WikiMount

theorem FileFormat.eq_of_fileName_eq {format other : FileFormat} (h : format.fileName = other.fileName) :
    format = other := by
  cases format <;> cases other <;> first | rfl | exact absurd h (by decide)

namespace Context

/-- The token that a node of a kind is listed under, below a node of another kind. -/
def listedAs (parent : NodeKind) : NodeKind → String
  | .page page =>
    match parent with
    | .page above => childToken above page
    | .orphans => page.text
    | _ => page.name
  | kind => kind.displayName

/-- Two members of a node that are listed under one token, in the order of the listing. -/
inductive Coincide (ctx : Context) : NodeKind → NodeKind → NodeKind → Prop
  | spacePage {space : Space} {name : String} :
      Coincide ctx (.space space .pages) (.space (space.child name) .pages)
        (.page (.inSpace name space))
  | spaceGroup {space : Space} {group : LetterGroup} :
      Coincide ctx (.space space .pages) (.space (space.child group.name) .pages)
        (.pageGroup space group)
  | pageFile {page child : Page} :
      Coincide ctx (.page page) (.page child) (.attachment ⟨page, childToken page child⟩)
  | pageView {page child : Page} {format : FileFormat} (h : childToken page child = format.fileName) :
      Coincide ctx (.page page) (.page child) (.wikiFile page format)
  | fileView {page : Page} {format : FileFormat} :
      Coincide ctx (.page page) (.attachment ⟨page, format.fileName⟩) (.wikiFile page format)
  | scratch {parent kind : NodeKind} (hkind : ∀ name, kind ≠ .scratch name) :
      Coincide ctx parent kind (.scratch (listedAs parent kind))
  | misplaced {files : Scratch} {name : String} (hfiles : ctx.scratch = some files)
      (h : ¬files.Placed) : Coincide ctx .root (.scratch name) (.scratch name)

/-- Candidates that have one token are members that coincide. -/
def Apart (ctx : Context) (parent : NodeKind) (c d : Candidate) : Prop :=
  c.2 = d.2 → ctx.Coincide parent c.1 d.1

variable {ctx : Context} {t t' : Tree} {dir id : Nat} {ids : List Nat} {parent kind kind' : NodeKind}
  {segment name path : String} {page : Page} {space : Space} {stored : List Candidate}

/-! ## Tokens -/

theorem Coincide.listedAs_eq (h : ctx.Coincide parent kind kind') :
    listedAs parent kind = listedAs parent kind' := by
  cases h with
  | spacePage => exact Space.name_child _ _
  | spaceGroup => exact Space.name_child _ _
  | pageView h => exact h
  | _ => rfl

theorem listedAs_of_mem_grouped {asGroup : LetterGroup → NodeKind} {pages : List Page}
    (hparent : ∀ page : Page, listedAs parent (.page page) = page.name)
    (hgroup : ∀ g, listedAs parent (asGroup g) = (asGroup g).displayName)
    (h : (kind, segment) ∈ ctx.grouped asGroup pages) : segment = listedAs parent kind := by
  obtain ⟨page, _, rfl, rfl⟩ | ⟨g, _, rfl, rfl⟩ := grouped_cases h
  · exact (hparent page).symm
  · exact (hgroup g).symm

/-- What is offered is known by its token from its kind and the kind of the node above. -/
theorem Offers.segment_eq (h : ctx.Offers t id parent kind segment) : segment = listedAs parent kind := by
  cases h with
  | nested h => exact (Space.name_child _ _).symm
  | own h => exact listedAs_of_mem_grouped (fun _ => rfl) (fun _ => rfl) h
  | holder h => exact listedAs_of_mem_grouped (fun _ => rfl) (fun _ => rfl) h
  | _ => rfl

/-! ## One source -/

theorem listed_nodup {α : Type} {r : Repository} {m : Method} {l : List α} (h : l.Nodup) :
    (listed (r.asked m (.ok l))).Nodup := by
  simp only [Repository.asked]
  split
  · exact List.nodup_nil
  · exact h

theorem apart_map {α : Type} {l : List α} {f : α → Candidate} (hl : l.Nodup)
    (hinj : ∀ a ∈ l, ∀ b ∈ l, (f a).2 = (f b).2 → a = b) : (l.map f).Pairwise (ctx.Apart parent) :=
  List.pairwise_map.2 (hl.imp_of_mem fun ha hb hne heq => absurd (hinj _ ha _ hb heq) hne)

/-- The pages of a space have different names. -/
theorem short_apart (space : Space) {pages : List Page} (hpages : pages.Nodup)
    (hin : ∀ p ∈ pages, p.isIn space = true) : (pages.map .short).Pairwise (ctx.Apart parent) :=
  apart_map hpages fun p hp q hq hname => Page.eq_of_name_eq (hin p hp) (hin q hq) hname

theorem grouped_apart {asGroup : LetterGroup → NodeKind} (space : Space) {pages : List Page}
    (hpages : pages.Nodup) (hin : ∀ p ∈ pages, p.isIn space = true)
    (hname : ∀ g, (asGroup g).displayName = g.name) :
    (ctx.grouped asGroup pages).Pairwise (ctx.Apart parent) := by
  simp only [grouped]
  split
  · exact short_apart space hpages hin
  · refine apart_map (LetterGroup.groups_nodup _ _) fun g _ g' _ h => LetterGroup.eq_of_name_eq ?_
    rw [← hname, ← hname]
    exact h

theorem mem_childPages {c : Candidate} (h : c ∈ ctx.childPages t id page) :
    ∃ child, c = (.page child, childToken page child) := by
  obtain ⟨child, _, rfl⟩ := List.mem_map.1 h
  exact ⟨child, rfl⟩

theorem mem_attachments {c : Candidate} (h : c ∈ ctx.attachments page) :
    ∃ file, c = (.attachment ⟨page, file⟩, file) := by
  obtain ⟨a, ha, rfl⟩ := List.mem_map.1 h
  obtain ⟨file, _, rfl⟩ := List.mem_map.1 (List.mem_filter.1 ha).1
  exact ⟨file, rfl⟩

theorem wikiFiles_eq (page : Page) : wikiFiles page =
    [FileFormat.text, .xml].map fun format => (.wikiFile page format, format.fileName) := rfl

theorem childPages_apart (hr : ctx.repository.WellFormed) (hpage : page.space.isSome = true) :
    (ctx.childPages t id page).Pairwise (ctx.Apart parent) := by
  have hcoherent := hr.reachable.coherent
  have hstored : ∀ child, child ∈ listed (ctx.repository.childrenOf page) →
      ctx.repository.store.hasPage child = true := fun child h =>
    Store.hasPage_of_mem_childrenOf hcoherent (mem_listed_asked.1 h).2
  refine apart_map ((listed_nodup (Store.childrenOf_nodup hcoherent page)).filter _) ?_
  intro child hchild other hother htoken
  have hchild := hstored child (List.mem_filter.1 hchild).1
  have hother := hstored other (List.mem_filter.1 hother).1
  obtain ⟨space, hspace⟩ := hcoherent.space_of_stored hchild
  obtain ⟨space', hspace'⟩ := hcoherent.space_of_stored hother
  exact eq_of_childToken_eq hpage hspace (hr.pages child hchild) hspace' (hr.pages other hother) htoken

theorem attachments_apart : (ctx.attachments page).Pairwise (ctx.Apart parent) := by
  have hmk : Function.Injective (Attachment.mk page) := fun _ _ h => (Attachment.mk.inj h).2
  refine apart_map (((listed_nodup (SortedMap.keys_nodup _)).map hmk).filter _) ?_
  intro a ha b hb hfile
  obtain ⟨file, _, rfl⟩ := List.mem_map.1 (List.mem_filter.1 ha).1
  obtain ⟨other, _, rfl⟩ := List.mem_map.1 (List.mem_filter.1 hb).1
  exact congrArg (Attachment.mk page) hfile

theorem wikiFiles_apart : (wikiFiles page).Pairwise (ctx.Apart parent) := by
  rw [wikiFiles_eq]
  exact apart_map (by decide) fun _ _ _ _ hname => FileFormat.eq_of_fileName_eq hname

/-- Two scratch files of one name are listed in the root alone, and only if one of them is misplaced. -/
theorem scratchFiles_apart (hroot : path = "/" → parent = .root) :
    (ctx.scratchFiles path).Pairwise (ctx.Apart parent) := by
  simp only [scratchFiles]
  split
  next files hfiles =>
    by_cases hplaced : path ≠ "/" ∨ files.Placed
    · exact apart_map (Scratch.namesIn_nodup hplaced) fun _ _ _ _ hname => hname
    -- Only in the root are there names that do not tell files apart.
    · obtain ⟨hpath, hmisplaced⟩ := not_or.1 hplaced
      obtain rfl := hroot (not_not.1 hpath)
      refine List.pairwise_map.2 (List.pairwise_of_forall fun name other hname => ?_)
      obtain rfl : name = other := hname
      exact .misplaced hfiles hmisplaced
  · exact .nil

/-! ## Sources of one directory -/

/-- A nested space is called like a page or like a letter group. -/
theorem space_apart (ctx : Context) (space : Space) :
    (((listed (ctx.repository.spacesIn space)).map fun name =>
        Candidate.named (.space (space.child name) .pages)) ++
      ctx.grouped (.pageGroup space) (ctx.visible (listed (ctx.repository.pagesIn space)))).Pairwise
        (ctx.Apart (.space space .pages)) := by
  have hin : ∀ p ∈ ctx.visible (listed (ctx.repository.pagesIn space)), p.isIn space = true :=
    fun p hp => (Store.mem_pagesIn.1 (mem_listed_asked.1 (mem_visible.1 hp).1).2).2
  refine List.pairwise_append.2 ⟨?_, ?_, ?_⟩
  · refine apart_map (listed_nodup (Store.spacesIn_nodup _ space)) fun name _ other _ hname => ?_
    rw [← Space.name_child space name, ← Space.name_child space other]
    exact hname
  · exact grouped_apart space ((listed_nodup (Store.pagesIn_nodup _ space)).filter _) hin fun _ => rfl
  · rintro c hc ⟨kind, segment⟩ hd htoken
    obtain ⟨name, _, rfl⟩ := List.mem_map.1 hc
    obtain rfl : name = segment := (Space.name_child space name).symm.trans htoken
    obtain ⟨page, hpage, rfl, rfl⟩ | ⟨g, _, rfl, rfl⟩ := grouped_cases hd
    · obtain ⟨name, rfl⟩ := Page.exists_eq_inSpace (hin page hpage)
      exact .spacePage
    · exact .spaceGroup

/-- A child page is called like a file, or one of them like a file view. -/
theorem page_apart (hr : ctx.repository.WellFormed) (hpage : page.space.isSome = true) :
    (ctx.childPages t id page ++ ctx.attachments page ++ wikiFiles page).Pairwise
      (ctx.Apart (.page page)) := by
  refine List.pairwise_append.2 ⟨List.pairwise_append.2 ⟨childPages_apart hr hpage, attachments_apart,
    ?_⟩, wikiFiles_apart, ?_⟩
  · intro c hc d hd htoken
    obtain ⟨child, rfl⟩ := mem_childPages hc
    obtain ⟨file, rfl⟩ := mem_attachments hd
    obtain rfl : childToken page child = file := htoken
    exact .pageFile
  · intro c hc d hd htoken
    rw [wikiFiles_eq] at hd
    obtain ⟨format, _, rfl⟩ := List.mem_map.1 hd
    rcases List.mem_append.1 hc with hc | hc
    · obtain ⟨child, rfl⟩ := mem_childPages hc
      exact .pageView htoken
    · obtain ⟨file, rfl⟩ := mem_attachments hc
      obtain rfl : file = format.fileName := htoken
      exact .fileView

theorem stored?_apart (hr : ctx.repository.WellFormed)
    (hpage : ∀ page, t.kind id = .page page → page.space.isSome = true)
    (h : ctx.stored? t id = some stored) : stored.Pairwise (ctx.Apart (t.kind id)) := by
  have hcoherent := hr.reachable.coherent
  simp only [stored?] at h
  split at h
  next =>
    obtain rfl := Option.some.inj h
    change ([NodeKind.baseView .pages, .baseView .attachments, .orphans].map
      Candidate.named).Pairwise _
    exact apart_map (by decide) (by decide)
  next =>
    obtain rfl := Option.some.inj h
    exact apart_map (listed_nodup (Store.topLevelSpaces_nodup _)) fun _ _ _ _ hname => hname
  next =>
    obtain rfl := Option.some.inj h
    have hwell : ∀ space ∈ listed ctx.repository.allSpaces, space.isWellFormed = true :=
      fun space hspace => hr.spaces space (Store.mem_allSpaces.1 (mem_listed_asked.1 hspace).2)
    refine apart_map (listed_nodup (SortedMap.keys_nodup _)) fun space hspace other hother htext => ?_
    exact Space.eq_of_text_eq (hwell space hspace) (hwell other hother) htext
  next =>
    obtain rfl := Option.some.inj h
    refine apart_map ((listed_nodup (Store.orphans_nodup hcoherent)).filter _) fun p _ q hq htext => ?_
    have hlisted := (mem_listed_asked.1 (mem_visible.1 hq).1).2
    exact Page.eq_of_text_eq (hr.pages q (Store.hasPage_of_mem_orphans hcoherent hlisted)) htext
  next space hk =>
    obtain rfl := Option.some.inj h
    rw [hk]
    exact space_apart ctx space
  next space _ =>
    obtain rfl := Option.some.inj h
    have hnodup := SortedMap.nodup_of_ascending (ctx.repository.store.pagesWithFiles_ascending space)
    refine grouped_apart space ((listed_nodup hnodup).filter _) (fun p hp => ?_) fun _ => rfl
    exact (Store.mem_pagesWithFiles.1 (mem_listed_asked.1 (mem_visible.1 hp).1).2).1
  next space group _ =>
    obtain rfl := Option.some.inj h
    have hnodup := SortedMap.nodup_of_ascending
      (ctx.repository.store.pagesBeginning_ascending space group.key)
    refine short_apart space ((listed_nodup hnodup).filter _) fun p hp => ?_
    exact (Store.mem_pagesBeginning.1 (mem_listed_asked.1 (mem_visible.1 hp).1).2).2.1
  next space group _ =>
    obtain rfl := Option.some.inj h
    have hnodup := SortedMap.nodup_of_ascending (ctx.repository.store.pagesWithFiles_ascending space)
    refine short_apart space (((listed_nodup hnodup).filter _).filter _) fun p hp => ?_
    have hlisted := (List.mem_filter.1 (mem_visible.1 hp).1).1
    exact (Store.mem_pagesWithFiles.1 (mem_listed_asked.1 hlisted).2).1
  next page hk =>
    rw [hk]
    split at h
    · obtain rfl := Option.some.inj h
      exact page_apart hr (hpage page hk)
    · cases h
  all_goals cases h

/-- Scratch files are listed by the storage alone. -/
theorem ne_scratch_of_stored (h : ctx.stored? t id = some stored) (hmem : (kind, segment) ∈ stored) :
    kind ≠ .scratch name := by
  rintro rfl
  simp only [stored?] at h
  split at h
  -- Of a page it also matters whether it may be viewed.
  all_goals try split at h
  all_goals cases h
  all_goals
    simp [Candidate.named, Candidate.short, childPages, attachments, wikiFiles_eq, not_mem_grouped] at hmem

theorem candidates_apart (hr : ctx.repository.WellFormed)
    (hpage : ∀ page, t.kind id = .page page → page.space.isSome = true)
    (hroot : t.path id = "/" → t.kind id = .root) :
    (ctx.candidates t id).Pairwise (ctx.Apart (t.kind id)) := by
  simp only [candidates]
  split
  next stored hstored =>
    refine List.pairwise_append.2 ⟨stored?_apart hr hpage hstored, scratchFiles_apart hroot, ?_⟩
    rintro ⟨kind, segment⟩ hc d hd htoken
    -- Scratch files come last, and what stands before them may be of any kind.
    have htoken : d.2 = listedAs (t.kind id) kind :=
      htoken.symm.trans (offers_of_stored hstored hc).segment_eq
    obtain ⟨_, _, name, _, rfl⟩ := mem_scratchFiles.1 hd
    obtain rfl : name = listedAs (t.kind id) kind := htoken
    exact .scratch fun _ => ne_scratch_of_stored hstored hc
  · exact .nil

/-! ## Members -/

/-- A member is listed under the token of its kind. -/
theorem member_segment (hl : ctx.lookup path = .ok (dir, t)) (hm : ctx.members t dir = (ids, t'))
    (hchild : id ∈ ids) : (t'.node id).segment = listedAs (t.kind dir) (t'.kind id) := by
  obtain ⟨ht, hdir⟩ := lookup_resolved hl
  obtain ⟨kind, segment, hoffer, _, hnode⟩ := members_sound ht.ordered hdir hm hchild
  have hkind : t'.kind id = kind := congrArg Node.kind hnode
  rw [hkind, hnode]
  exact hoffer.segment_eq

/-- Two members of a directory have one path exactly if they coincide. -/
theorem members_apart (hr : ctx.repository.WellFormed) (hl : ctx.lookup path = .ok (dir, t))
    (hm : ctx.members t dir = (ids, t')) : ids.Pairwise fun a b =>
      (t'.path a = t'.path b ↔ ctx.Coincide (t.kind dir) (t'.kind a) (t'.kind b)) := by
  obtain ⟨ht, hdir⟩ := lookup_resolved hl
  have hcandidates := candidates_apart hr (fun page hk => ht.space_of_page hk) (kind_eq_root_iff hl).2
  have hnodes : (ids.map t'.node).Pairwise fun m n =>
      m.segment = n.segment → ctx.Coincide (t.kind dir) m.kind n.kind := by
    rw [members_nodes ht.ordered hdir hm]
    exact List.pairwise_map.2 (hcandidates.filter _)
  refine (List.pairwise_map.1 hnodes).imp_of_mem fun {a b} ha hb hsegment => ?_
  rw [member_path hl hm ha, member_path hl hm hb, Path.below_inj]
  refine ⟨hsegment, fun hcoincide => ?_⟩
  rw [member_segment hl hm ha, member_segment hl hm hb]
  exact hcoincide.listedAs_eq

/-- Scratch files that are filed where they are listed have paths of their own. -/
theorem scratch_members_apart (hr : ctx.repository.WellFormed)
    (hplaced : ∀ files, ctx.scratch = some files → files.Placed)
    (hl : ctx.lookup path = .ok (dir, t)) (hm : ctx.members t dir = (ids, t')) :
    ids.Pairwise fun a b => ∀ name, t'.kind a = .scratch name → t'.kind b ≠ .scratch name := by
  refine (members_apart hr hl hm).imp_of_mem fun {a b} ha hb hiff name hka hkb => ?_
  have hpath : t'.path a = t'.path b := by
    rw [member_path hl hm ha, member_path hl hm hb, member_segment hl hm ha, member_segment hl hm hb,
      hka, hkb]
  have hcoincide := hiff.1 hpath
  rw [hka, hkb] at hcoincide
  generalize t.kind dir = parent at hcoincide
  cases hcoincide with
  | scratch hkind => exact hkind name rfl
  | misplaced hfiles h => exact h (hplaced _ hfiles)

end Context

namespace Service

/-- Two entries of a listing have one path exactly if they coincide, and scratch files that requests have
left do not coincide with each other. -/
theorem handle_list_apart {s : Service} {caller : Caller} {path : String} {entries : List Entry}
    (hr : s.repository.WellFormed) (h : (s.handle caller (.list path)).1 = .ok (.entries entries)) :
    ∃ dir t ids t', (s.context caller .read).lookup path = .ok (dir, t) ∧
      (s.context caller .read).members t dir = (ids, t') ∧ entries = ids.map t'.entry ∧
      (ids.Pairwise fun a b => ((t'.entry a).path = (t'.entry b).path ↔
        (s.context caller .read).Coincide (t.kind dir) (t'.kind a) (t'.kind b))) ∧
      (s.Serving → ids.Pairwise fun a b =>
        ∀ name, t'.kind a = .scratch name → t'.kind b ≠ .scratch name) := by
  obtain ⟨dir, t, hl, hentries⟩ := Context.list_eq_ok (list_of_handle h)
  refine ⟨dir, t, _, _, hl, rfl, hentries, Context.members_apart hr hl rfl, fun hserving => ?_⟩
  exact Context.scratch_members_apart hr (context_placed hserving.placed caller _) hl rfl

/-- A nested space and the page of its name have one path, other pages have paths of their own. -/
theorem handle_list_apart_beside_space :
    let a := Page.inSpace "A" (.topLevel "Main")
    let b := Page.inSpace "B" (.topLevel "Main")
    let nested := Space.child (.topLevel "Main") "A"
    let s := Service.new (.ofStore (.ofPages [a, b, .inSpace "C" nested])) .standard
    let caller : Caller := ⟨.anonymous, .allowAll⟩
    ∃ t' : Tree, (t'.entry 3).kind = .space ∧ (t'.entry 4).kind = .page ∧ (t'.entry 5).kind = .page ∧
      (s.handle caller (.list "/spaces/Main")).1 = .ok (.entries ([3, 4, 5].map t'.entry)) ∧
      (t'.entry 3).path = (t'.entry 4).path ∧ (t'.entry 4).path ≠ (t'.entry 5).path := by
  intro a b nested s caller
  let ctx := s.context caller .read
  let t : Tree := ⟨#[.root, ⟨.baseView .pages, "spaces", some 0, none⟩,
    ⟨.space (.topLevel "Main") .pages, "Main", some 1, none⟩]⟩
  let t' : Tree := ⟨t.nodes ++ #[⟨.space nested .pages, "A", some 2, none⟩,
    ⟨.page a, "A", some 2, none⟩, ⟨.page b, "B", some 2, none⟩]⟩
  have hr : s.repository.WellFormed := .ofStore (Store.reachable_ofPages _) (by decide) (by decide)
  have hl : ctx.lookup "/spaces/Main" = .ok (2, t) := by
    dsimp only [ctx, s, caller, t, nested, a, b]
    rfl
  have hm : ctx.members t 2 = ([3, 4, 5], t') := by
    dsimp only [ctx, s, caller, t', t, nested, a, b]
    rfl
  have hok : (s.handle caller (.list "/spaces/Main")).1 =
      .ok (.entries ([3, 4, 5].map t'.entry)) := by
    dsimp only [s, caller, t', t, nested, a, b]
    rfl
  obtain ⟨dir, u, ids, u', hl', hm', _, hapart, _⟩ := handle_list_apart hr hok
  obtain ⟨rfl, rfl⟩ : 2 = dir ∧ t = u := Prod.mk.inj (Except.ok.inj (hl.symm.trans hl'))
  obtain ⟨rfl, rfl⟩ : [3, 4, 5] = ids ∧ t' = u' := Prod.mk.inj (hm.symm.trans hm')
  simp only [List.pairwise_cons, List.mem_cons, List.not_mem_nil, or_false, forall_eq_or_imp,
    forall_eq] at hapart
  obtain ⟨⟨hspace, _⟩, hpages, _⟩ := hapart
  refine ⟨t', rfl, rfl, rfl, hok, hspace.2 .spacePage, fun hpath => ?_⟩
  cases hpages.1 hpath

/-- A listing may answer with one path twice, in each of the ways in which members coincide. -/
theorem one_path_listed_twice :
    let main := Space.topLevel "Main"
    let a := Page.inSpace "A" main
    let held := fun (page : Page) => Write.save { Document.blank page with parent := some a }
    let store := [held (.inSpace "B" main), held (.inSpace "txt" (.topLevel "wiki")),
      .attach ⟨a, "B"⟩ .empty, .attach ⟨a, "wiki.xml"⟩ .empty].foldl (fun s w => (s.write w).2)
        (.ofPages [.inSpace ".x" main, .inSpace "C" (main.child "A"), .inSpace "C" (main.child "_A_")])
    let grouping : Config := { Config.standard with grouping := ⟨1, 200, 5000⟩ }
    let caller : Caller := ⟨.anonymous, .allowAll⟩
    let s := Service.new (.ofStore store) .standard
    let left : Service := { s with
      sessions := (s.sessions.getOrCreate "anonymous").2.setStorage 0
        ((Scratch.write .empty "x" .empty).write "/x" .empty) }
    let answers := fun (s : Service) (path : String) (paths : List String) =>
      ∃ entries, (s.handle caller (.list path)).1 = .ok (.entries entries) ∧
        entries.map Entry.path = paths ∧ ¬paths.Nodup
    s.repository.WellFormed ∧
      answers (s.handle caller (.put "/spaces/Main/.x" .empty)).2 "/spaces/Main"
        ["/spaces/Main/A", "/spaces/Main/_A_", "/spaces/Main/.x", "/spaces/Main/A", "/spaces/Main/B",
          "/spaces/Main/.x"] ∧
      answers { s with config := grouping } "/spaces/Main"
        ["/spaces/Main/A", "/spaces/Main/_A_", "/spaces/Main/_._", "/spaces/Main/_A_",
          "/spaces/Main/_B_"] ∧
      answers s "/spaces/Main/A"
        ["/spaces/Main/A/B", "/spaces/Main/A/wiki.txt", "/spaces/Main/A/B", "/spaces/Main/A/wiki.xml",
          "/spaces/Main/A/wiki.txt", "/spaces/Main/A/wiki.xml"] ∧
      answers left "/" ["/spaces", "/attachments", "/orphans", "/x", "/x"] := by
  intro main a held store grouping caller s left answers
  have hanswers : ∀ (s : Service) path paths, ¬paths.Nodup →
      ((s.context caller .read).list path).map (List.map Entry.path) = .ok paths →
        answers s path paths := by
    intro s path paths hrepeats h
    obtain ⟨entries, hlist, rfl⟩ := Except.map_eq_ok.1 h
    refine ⟨entries, ?_, rfl, hrepeats⟩
    rw [handle_list, hlist]
    rfl
  refine ⟨?_, hanswers _ _ _ (by decide) ?_, hanswers _ _ _ (by decide) ?_,
    hanswers _ _ _ (by decide) ?_, hanswers _ _ _ (by decide) ?_⟩
  · refine .ofStore ?_ (by decide +kernel) (by decide +kernel)
    exact ((((Store.reachable_ofPages _).write _).write _).write _).write _
  · dsimp only [s, caller, store, held, a, main]
    rfl
  · dsimp only [grouping, s, caller, store, held, a, main]
    rfl
  · dsimp only [s, caller, store, held, a, main]
    rfl
  · dsimp only [left, s, caller, store, held, a, main]
    rfl

end Service

end WikiMount
