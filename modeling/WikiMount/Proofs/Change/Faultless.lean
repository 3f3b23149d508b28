import WikiMount.Proofs.Change.HealthyRuns
import WikiMount.Proofs.Node.Chains
import WikiMount.Proofs.Text.LetterGroups

/-!
# Faults are not the caller's

An error is internal where an invariant is broken or the storage has failed. While nothing is wrong with
the repository no request but a rename comes to such an error: a token that looks like the name of a letter
group has a key, what is decoded may stand where it is put, a letter group has a directory, a page is only
asked to hold what it can hold, and whatever is removed is there.
-/

namespace WikiMount

/-! ## Looking up -/

namespace LetterGroup

open Text (upperChars upperChars_eq_nil uppercase_ofList_upperChars)

/-- A token that is marked as a group at both ends is that of a group, whatever becomes of its letters in
uppercase, unless there is nothing between the marks. -/
theorem exists_ofToken {token : String} (h : ReservedName.isGroup token = true)
    (hlength : token.toList.length ≠ 2) : ∃ g, ofToken token = .ok g := by
  simp only [ReservedName.isGroup, Bool.and_eq_true, beq_iff_eq, decide_eq_true_eq,
    ReservedName.groupMarker] at h
  obtain ⟨⟨hlong, hhead⟩, hlast⟩ := h
  obtain ⟨rest, hrest⟩ := List.head?_eq_some_iff.1 hhead
  rw [hrest] at hlong hlength hlast
  have hne : rest ≠ [] := List.ne_nil_of_length_pos (by simp at hlong; omega)
  rw [List.getLast?_cons_of_ne_nil hne] at hlast
  obtain ⟨key, rfl⟩ := List.getLast?_eq_some_iff.1 hlast
  have hkey : upperChars key ≠ [] := by
    rw [Ne, upperChars_eq_nil]
    rintro rfl
    simp at hlength
  refine ⟨⟨String.ofList (upperChars key), ?_, uppercase_ofList_upperChars key⟩,
    ofToken_of_uppercase ?_⟩
  · intro hempty
    exact hkey (by simpa using congrArg String.toList hempty)
  · apply String.toList_injective
    rw [Text.toList_uppercase, hrest, upperChars_marked, toList_name, String.toList_ofList]

theorem errsOnly_ofToken {token : String} (h : ReservedName.isGroup token = true) :
    ErrsOnly ViewError.IsBadRequest (ofToken token) := by
  by_cases hlength : token.toList.length = 2
  · rw [ofToken, if_pos hlength]
    exact errsOnly_error.2 trivial
  · obtain ⟨g, hg⟩ := exists_ofToken h hlength
    rw [hg]
    exact errsOnly_ok g

end LetterGroup

/-- What was decoded below a node may stand there or its reference is to blame. -/
theorem Context.Decodes.errsOnly_validate {ctx : Context} {token : String} {last : Bool}
    {parent kind : NodeKind} (h : ctx.Decodes token last parent kind) :
    ErrsOnly ViewError.IsBadRequest (Tree.validate parent kind) := by
  cases kind with
  | root =>
    cases h with
    | view _ hview => obtain ⟨_, h⟩ | h := decodeBaseView_ok hview <;> cases h
  | page page =>
    simp only [Tree.validate]
    split <;> simp [ViewError.ofReference, ViewError.IsBadRequest]
  | pageGroup space group =>
    cases h with
    | view _ hview => obtain ⟨_, h⟩ | h := decodeBaseView_ok hview <;> cases h
    | group => simp [Tree.validate]
  | attachmentGroup space group =>
    cases h with
    | view _ hview => obtain ⟨_, h⟩ | h := decodeBaseView_ok hview <;> cases h
    | fileGroup => simp [Tree.validate]
  | space space view =>
    simp only [Tree.validate]
    split <;> simp [ViewError.IsBadRequest]
  | _ => exact errsOnly_ok ()

namespace Context

variable {ctx : Context} {t : Tree} {id : Nat}

theorem errsOnly_decodeBaseView (token : String) :
    ErrsOnly ViewError.IsBadRequest (decodeBaseView token) := by
  unfold decodeBaseView
  repeat' split
  all_goals simp [ViewError.IsBadRequest]

theorem errsOnly_decodeInSpace (space : Space) (token : String) (last : Bool) :
    ErrsOnly ViewError.IsBadRequest (ctx.decodeInSpace space token last) := by
  unfold decodeInSpace
  split
  next hgroup =>
    exact errsOnly_map.2 (LetterGroup.errsOnly_ofToken (Bool.and_eq_true_iff.1 hgroup).1)
  · repeat' split
    all_goals simp

theorem errsOnly_decodeInPage (hworking : ctx.repository.broken = []) (page : Page) (token : String)
    (last : Bool) : ErrsOnly ViewError.IsBadRequest (ctx.decodeInPage page token last) := by
  unfold decodeInPage
  rw [Repository.files, Repository.asked_of_working hworking]
  repeat' split
  all_goals simp_all [ViewError.ofReference, ViewError.IsBadRequest]

theorem errsOnly_decode (hworking : ctx.repository.broken = []) (kind : NodeKind) (path token : String)
    (last : Bool) : ErrsOnly ViewError.IsBadRequest (ctx.decode kind path token last) := by
  simp only [decode]
  split
  · exact errsOnly_error.2 trivial
  split
  · exact errsOnly_ok _
  cases kind with
  | root => exact errsOnly_decodeBaseView token
  | baseView view =>
    cases view with
    | pages =>
      dsimp only
      split <;> simp [ViewError.IsBadRequest]
    | attachments =>
      dsimp only
      split <;> simp [ViewError.ofReference, ViewError.IsBadRequest]
  | orphans =>
    dsimp only
    split
    · exact errsOnly_error.2 trivial
    · split <;> simp [ViewError.IsBadRequest]
  | space space view =>
    cases view with
    | pages =>
      dsimp only
      split
      next e he => exact errsOnly_error.2 (errsOnly_decodeInSpace space token last e he)
      · exact errsOnly_ok _
      · exact errsOnly_error.2 trivial
    | attachments =>
      dsimp only
      split
      next hgroup =>
        exact errsOnly_map.2 (LetterGroup.errsOnly_ofToken (Bool.and_eq_true_iff.1 hgroup).1)
      · split <;> simp [ViewError.IsBadRequest]
  | pageGroup space group =>
    dsimp only
    split <;> simp [ViewError.IsBadRequest]
  | attachmentGroup space group =>
    dsimp only
    split <;> simp [ViewError.IsBadRequest]
  | page page => exact errsOnly_decodeInPage hworking page token last
  | _ => exact errsOnly_error.2 trivial

theorem errsOnly_step (hworking : ctx.repository.broken = []) (t : Tree) (id : Nat) (token : String)
    (last : Bool) : ErrsOnly ViewError.IsBadRequest (ctx.step t id token last) := by
  have hdecode := errsOnly_decode hworking (t.kind id) (t.path id) token last
  unfold step
  split
  next e he => exact errsOnly_error.2 (hdecode e he)
  next kind hkind =>
    have hvalid := (decode_eq_ok_iff.1 hkind).errsOnly_validate
    unfold Tree.insert
    split
    next e he => exact errsOnly_error.2 (hvalid e he)
    · exact errsOnly_ok _

theorem errsOnly_resolve (hworking : ctx.repository.broken = []) (t : Tree) (id : Nat)
    (tokens : List String) : ErrsOnly ViewError.IsBadRequest (ctx.resolve t id tokens).1 := by
  induction tokens generalizing t id with
  | nil => exact errsOnly_ok id
  | cons token rest ih =>
    simp only [resolve]
    split
    next e he => exact errsOnly_error.2 (errsOnly_step hworking _ _ _ _ e he)
    next child t' _ => exact ih t' child

/-- A path that leads nowhere is a bad request, whatever is intended. -/
theorem errsOnly_resolvePath (hworking : ctx.repository.broken = []) (t : Tree) (path : String) :
    ErrsOnly ViewError.IsBadRequest (ctx.resolvePath t path).1 := by
  unfold resolvePath
  split
  · exact errsOnly_error.2 trivial
  · exact errsOnly_resolve hworking t _ _

theorem errsOnly_lookup (hworking : ctx.repository.broken = []) (path : String) :
    ErrsOnly ViewError.IsBadRequest (ctx.lookup path) := by
  have hpath := errsOnly_resolvePath hworking .new path
  unfold lookup
  split
  · exact errsOnly_ok _
  next e _ hr =>
    rw [hr] at hpath
    exact errsOnly_error.2 (errsOnly_error.1 hpath)

/-! ## Reading -/

theorem errsOnly_require (right : Right) (target : Entity) :
    ErrsOnly ViewError.IsRejection (ctx.require right target) := by
  unfold require
  split <;> simp [ViewError.IsRejection]

theorem errsOnly_requireReadable (kind : NodeKind) :
    ErrsOnly ViewError.IsRejection (ctx.requireReadable kind) := by
  unfold requireReadable
  split <;> simp [errsOnly_require]

theorem errsOnly_requireScratch : ErrsOnly ViewError.IsBadRequest ctx.requireScratch := by
  unfold requireScratch
  split <;> simp [ViewError.IsBadRequest]

theorem errsOnly_document {r : Repository} (hworking : r.broken = [])
    (hk : (t.kind id).documentPage?.isSome = true) :
    ErrsOnly ViewError.IsBadRequest (t.document r id) := by
  obtain ⟨page, hpage⟩ := Option.isSome_iff_exists.1 hk
  simp only [Tree.document, hpage]
  split
  · exact errsOnly_ok _
  · split
    · exact errsOnly_ok _
    next e he =>
      exact errsOnly_error.2 (Repository.errsOnly_document hworking page e he).isBadRequest

/-- The bytes of a file are there, if it is one that a page holds. -/
theorem errsOnly_content (hworking : ctx.repository.broken = [])
    (hheld : ∀ a, t.kind id = .attachment a → ∃ data, ctx.repository.store.content a = .ok data) :
    ErrsOnly ViewError.IsBadRequest (ctx.content t id).1 := by
  unfold content
  split
  next page format hk =>
    have hdocument : ErrsOnly ViewError.IsBadRequest (t.document ctx.repository id) :=
      errsOnly_document hworking (by rw [hk]; rfl)
    simp only [Tree.fetch]
    cases hd : t.document ctx.repository id with
    | error e => exact errsOnly_error.2 (hdocument e hd)
    | ok d =>
      simp only [exported]
      split
      · exact errsOnly_error.2 trivial
      · split <;> simp
  next a hk =>
    obtain ⟨data, hdata⟩ := hheld a hk
    simp [Repository.content, Repository.asked_of_working hworking, hdata, viewed]
  · unfold scratchContent
    split
    next e he => exact errsOnly_error.2 (errsOnly_requireScratch e he)
    · split <;> simp [ViewError.IsBadRequest]
  · exact errsOnly_error.2 trivial

/-- An attachment that is found by a request that can neither upload it nor move it there is held. -/
theorem held_of_lookup {path : String} {a : Attachment} (hworking : ctx.repository.broken = [])
    (hupload : ctx.intent.isCreateFile = false) (hmove : ctx.intent.moveSource? ≠ some .attachment)
    (hl : ctx.lookup path = .ok (id, t)) (hk : t.kind id = .attachment a) :
    a.file ∈ (ctx.repository.store.filesOf a.page).keys := by
  obtain ⟨files, hfiles, hfile⟩ := files_of_lookup hupload hmove hl hk
  rw [Repository.files, Repository.asked_of_working hworking] at hfiles
  exact Except.ok.inj hfiles ▸ hfile

theorem errsOnly_list (hworking : ctx.repository.broken = []) (path : String) :
    ErrsOnly ViewError.IsRejection (ctx.list path) := by
  have hlookup := (errsOnly_lookup hworking path).rejections
  refine .bind hlookup fun ⟨id, t⟩ _ => ?_
  exact .guard trivial (errsOnly_ok _)

theorem errsOnly_stat (hworking : ctx.repository.broken = []) (path : String) :
    ErrsOnly ViewError.IsRejection (ctx.stat path) := by
  have hlookup := (errsOnly_lookup hworking path).rejections
  refine .bind hlookup fun ⟨id, t⟩ _ => .bind (errsOnly_requireReadable _) fun _ _ => ?_
  dsimp only
  split
  next hpresent =>
    have htimes : ErrsOnly ViewError.IsBadRequest (ctx.times t id) := by
      unfold times
      split
      next hk => exact errsOnly_map.2 (errsOnly_document hworking hk)
      · exact errsOnly_ok _
    have hsize : ErrsOnly ViewError.IsBadRequest (ctx.fileSize t id) := by
      unfold fileSize
      split
      · exact errsOnly_ok _
      · refine errsOnly_map.2 (errsOnly_content hworking fun a hk => Store.exists_content ?_)
        rw [isPresent, hk] at hpresent
        simp only [Repository.files, Repository.asked_of_working hworking, finds] at hpresent
        simpa using hpresent
    refine .bind htimes.rejections fun _ _ => ?_
    exact .bind hsize.rejections fun _ _ => errsOnly_ok _
  · exact errsOnly_ok _

theorem errsOnly_read (hworking : ctx.repository.broken = []) (hread : ctx.intent = .read)
    (path : String) : ErrsOnly ViewError.IsRejection (ctx.read path) := by
  have hlookup := (errsOnly_lookup hworking path).rejections
  refine .bind hlookup fun ⟨id, t⟩ hl => .bind (errsOnly_requireReadable _) fun _ _ => ?_
  refine (errsOnly_content hworking fun a hk => ?_).rejections
  exact Store.exists_content
    (held_of_lookup hworking (by rw [hread]; rfl) (by rw [hread]; decide) hl hk)

end Context

/-! ## Planning -/

namespace Tree

variable {t : Tree} {id parent : Nat}

/-- Somewhere on the way up from a node there is one that is not a letter group. -/
theorem Resolved.exists_ancestor (ht : t.Resolved) (id : Nat) :
    ∃ a ∈ t.ancestors id, (t.kind a).isLetterGroup = false := by
  induction id using Nat.strongRecOn with
  | ind id ih =>
    cases hp : (t.node id).parent with
    | none =>
      refine ⟨id, by simp [ancestors_of_no_parent hp], ?_⟩
      rw [ht.root id hp]
      rfl
    | some parent =>
      obtain ⟨a, ha, hgroup⟩ := ih parent (ht.parent_lt id parent hp)
      exact ⟨a, by simp [ht.ordered.ancestors_of_parent hp, ha], hgroup⟩

/-- Some directory answers for what is below a node. -/
theorem Resolved.exists_directory (ht : t.Resolved) (node child : Nat) :
    ∃ dir, t.directory node child = .ok dir := by
  simp only [directory]
  split
  · exact ⟨_, rfl⟩
  · split
    next hgroup =>
      have hne : t.kind node ≠ .root := by
        intro hroot
        rw [hroot] at hgroup
        cases hgroup
      obtain ⟨parent, hp⟩ := ht.parent_of_ne_root hne
      obtain ⟨a, ha, hfree⟩ := ht.exists_ancestor parent
      have hsome : (t.semanticParent? node).isSome = true := by
        rw [semanticParent?, ht.ordered.ancestors_of_parent hp, List.tail_cons, List.find?_isSome]
        exact ⟨a, ha, by simp [hfree]⟩
      obtain ⟨dir, hdir⟩ := Option.isSome_iff_exists.1 hsome
      exact ⟨dir, by rw [hdir]⟩
    · exact ⟨_, rfl⟩

end Tree

/-- What a page can be asked to hold. -/
inductive NodeKind.BelowPage : NodeKind → Prop
  | scratch (name : String) : BelowPage (.scratch name)
  | page (page : Page) : BelowPage (.page page)
  | wikiFile (page : Page) (format : FileFormat) : BelowPage (.wikiFile page format)
  | attachment (attachment : Attachment) : BelowPage (.attachment attachment)

namespace Context

variable {ctx : Context} {t : Tree} {id parent node child dir : Nat} {path : String}

/-- Whatever a page answers for is something that it can hold. -/
theorem belowPage_of_lookup (hl : ctx.lookup path = .ok (id, t))
    (hp : (t.node id).parent = some parent) (hdir : t.directory parent id = .ok dir) {page : Page}
    (hpage : t.kind dir = .page page) : (t.kind id).BelowPage := by
  have hdecodes := lookup_decodes hl hp
  cases hgroup : (t.kind parent).isLetterGroup with
  | false =>
    obtain rfl := Tree.directory_of_not_group hgroup hdir
    rw [hpage] at hdecodes
    generalize t.kind id = kind at hdecodes
    cases hdecodes <;> constructor
  | true =>
    generalize t.kind parent = around at hdecodes hgroup
    generalize t.kind id = kind at hdecodes
    cases hdecodes <;> first | constructor | cases hgroup

theorem errsOnly_planScratchWrite (file : String) (content : Option Bytes) :
    ErrsOnly ViewError.IsBadRequest (ctx.planScratchWrite file content) :=
  .bind errsOnly_requireScratch fun _ _ => errsOnly_ok _

theorem errsOnly_planPage (hworking : ctx.repository.broken = []) (page : Page)
    (above : Document → Option Page) : ErrsOnly ViewError.IsRejection (ctx.planPage page above) := by
  refine .bind (errsOnly_require _ _) fun _ _ => .bind ?_ fun _ _ => errsOnly_ok _
  unfold placeholder
  split
  next e he =>
    exact errsOnly_error.2 (Repository.errsOnly_document hworking page e he).isBadRequest.isRejection
  · exact errsOnly_ok _

theorem errsOnly_planAddToPage (hworking : ctx.repository.broken = []) {page : Page}
    (content : Option Bytes) (hnode : t.kind node = .page page) (hchild : (t.kind child).BelowPage) :
    ErrsOnly ViewError.IsRejection (ctx.planAddToPage t node page child content) := by
  refine .bind (errsOnly_require _ _) fun _ _ => ?_
  split
  · exact (errsOnly_planScratchWrite _ _).rejections
  · exact errsOnly_planPage hworking _ _
  · exact errsOnly_error.2 trivial
  · unfold planText
    split
    · exact errsOnly_error.2 trivial
    · split
      · exact errsOnly_error.2 trivial
      · have hdocument : ErrsOnly ViewError.IsBadRequest (t.document ctx.repository node) :=
          errsOnly_document hworking (by rw [hnode]; rfl)
        exact errsOnly_map.2 hdocument.rejections
  · split <;> simp [ViewError.IsRejection]
  next hscratch hpage hxml htext hattachment =>
    generalize t.kind child = kind at *
    cases hchild with
    | scratch name => exact (hscratch name rfl).elim
    | page page => exact (hpage page rfl).elim
    | wikiFile page format =>
      cases format with
      | text => exact (htext page rfl).elim
      | xml => exact (hxml page rfl).elim
    | attachment a => exact (hattachment a rfl).elim

theorem errsOnly_planAddTo (hworking : ctx.repository.broken = []) (content : Option Bytes)
    (hbelow : ∀ page, t.kind node = .page page → (t.kind child).BelowPage) :
    ErrsOnly ViewError.IsRejection (ctx.planAddTo t node child content) := by
  unfold planAddTo
  split
  next page hnode => exact errsOnly_planAddToPage hworking content hnode (hbelow page hnode)
  · exact (errsOnly_planScratchWrite _ _).rejections
  · exact errsOnly_planPage hworking _ _
  · exact errsOnly_planPage hworking _ _
  · exact errsOnly_error.2 trivial

/-- Planning to add what was found at a path. -/
theorem errsOnly_planAdd (hworking : ctx.repository.broken = []) (content : Option Bytes)
    (hl : ctx.lookup path = .ok (id, t)) (hp : (t.node id).parent = some parent) :
    ErrsOnly ViewError.IsRejection (ctx.planAdd t parent id content) := by
  obtain ⟨dir, hdir⟩ := (lookup_resolved hl).1.exists_directory parent id
  unfold planAdd
  split
  · exact errsOnly_error.2 trivial
  · rw [hdir]
    exact errsOnly_planAddTo hworking content fun page => belowPage_of_lookup hl hp hdir

theorem errsOnly_requireAll (right : Right) (pages : List Page) :
    ErrsOnly ViewError.IsRejection (ctx.requireAll right pages) := by
  induction pages with
  | nil => exact errsOnly_ok ()
  | cons page rest ih =>
    simp only [requireAll]
    split
    next e he => exact errsOnly_error.2 (errsOnly_require _ _ e he)
    · exact ih

theorem errsOnly_planDelete (page : Page) : ErrsOnly ViewError.IsRejection (ctx.planDelete page) := by
  unfold planDelete
  split
  next e he => exact errsOnly_error.2 (errsOnly_require _ _ e he)
  · exact errsOnly_ok _

theorem errsOnly_planDeleteAll (batch : Batch) (pages : List Page) :
    ErrsOnly ViewError.IsRejection (ctx.planDeleteAll batch (.ok pages)) :=
  .bind (errsOnly_ok pages) fun _ _ => .bind (errsOnly_requireAll _ _) fun _ _ => errsOnly_ok _

theorem errsOnly_planScratchRemove (file : String) :
    ErrsOnly ViewError.IsRejection (ctx.planScratchRemove file) := by
  unfold planScratchRemove
  split
  next e he => exact errsOnly_error.2 (errsOnly_requireScratch e he).isRejection
  · split <;> simp [ViewError.IsRejection]

theorem errsOnly_planRemoveFromPage (page : Page) (hchild : (t.kind child).BelowPage) :
    ErrsOnly ViewError.IsRejection (ctx.planRemoveFromPage t page child) := by
  refine .bind (errsOnly_require _ _) fun _ _ => ?_
  split
  · exact errsOnly_planScratchRemove _
  · exact errsOnly_map.2 (errsOnly_require _ _)
  · exact errsOnly_ok _
  · exact errsOnly_planDelete _
  next hscratch hfile hattachment hpage =>
    generalize t.kind child = kind at *
    cases hchild with
    | scratch name => exact (hscratch name rfl).elim
    | page page => exact (hpage page rfl).elim
    | wikiFile page format => exact (hfile page format rfl).elim
    | attachment a => exact (hattachment a rfl).elim

theorem errsOnly_planRemoveFrom (hworking : ctx.repository.broken = [])
    (hbelow : ∀ page, t.kind node = .page page → (t.kind child).BelowPage) :
    ErrsOnly ViewError.IsRejection (ctx.planRemoveFrom t node child) := by
  unfold planRemoveFrom
  split
  next page hnode => exact errsOnly_planRemoveFromPage page (hbelow page hnode)
  · exact errsOnly_planScratchRemove _
  · exact errsOnly_planDelete _
  · rw [Repository.pagesBeginning, Repository.asked_of_working hworking]
    exact errsOnly_planDeleteAll _ _
  · rw [Repository.pagesIn, Repository.asked_of_working hworking]
    exact errsOnly_planDeleteAll _ _
  · exact errsOnly_error.2 trivial

/-- Planning to remove what was found at a path. -/
theorem errsOnly_planRemove (hworking : ctx.repository.broken = []) (hl : ctx.lookup path = .ok (id, t))
    (hp : (t.node id).parent = some parent) :
    ErrsOnly ViewError.IsRejection (ctx.planRemove t parent id) := by
  obtain ⟨dir, hdir⟩ := (lookup_resolved hl).1.exists_directory parent id
  unfold planRemove
  rw [hdir]
  exact errsOnly_planRemoveFrom hworking fun page => belowPage_of_lookup hl hp hdir

/-! ## What plans are about -/

/-- What is added takes nothing away. -/
theorem Adds.grounded {content : Option Bytes} {plan : Plan} (h : ctx.Adds t dir child content plan)
    (s : Store) : plan.Grounded s := by
  cases h <;> trivial

/-- What is removed is there. -/
theorem Removes.grounded {plan : Plan}
    (hheld : ∀ a, t.kind child = .attachment a →
      a.file ∈ (ctx.repository.store.filesOf a.page).keys)
    (h : ctx.Removes t dir child plan) : plan.Grounded ctx.repository.store := by
  have hdelete : ∀ page, (if ctx.repository.hasPage page then .write (.delete page)
      else .nothing : Plan).Grounded ctx.repository.store := by
    intro page
    split
    next hstored => exact hstored
    · trivial
  cases h with
  | scratch => trivial
  | wikiFile => trivial
  | attachment _ hchild => exact hheld _ hchild
  | below => exact hdelete _
  | inSpace => exact hdelete _
  | @group space _ group pages _ _ hpages =>
    obtain rfl := Repository.eq_of_asked hpages
    exact Store.exists_appliedAll_delete (ctx.repository.store.documents.keys_nodup.filter _)
      fun p hp => (Store.mem_pagesBeginning.1 hp).1
  | @space space _ pages _ _ hpages =>
    obtain rfl := Repository.eq_of_asked hpages
    exact Store.exists_appliedAll_delete (ctx.repository.store.pagesIn_nodup space)
      fun p hp => (Store.mem_pagesIn.1 hp).1

/-! ## Requests -/

/-- A change is turned down where it is planned, or it is made. -/
theorem errsOnly_carryOut (hr : ctx.repository.Healthy) {plan : Except ViewError Plan}
    (touched : List Nat) (hplan : ErrsOnly ViewError.IsRejection plan)
    (hgrounded : ∀ made, plan = .ok made → made.Grounded ctx.repository.store) :
    ErrsOnly ViewError.IsRejection (ctx.carryOut t plan touched).result.1 := by
  cases plan with
  | error e => exact errsOnly_error.2 (errsOnly_error.1 hplan)
  | ok made =>
    rw [carryOut_result]
    exact (Plan.errsOnly_execute hr (hgrounded made rfl)).rejections

theorem errsOnly_requireParent (id : Nat) : ErrsOnly ViewError.IsRejection (requireParent t id) := by
  unfold requireParent
  split
  · exact errsOnly_ok _
  · exact errsOnly_error.2 trivial

/-- Adding what was found at a path. -/
theorem errsOnly_add (hr : ctx.repository.Healthy) (content : Option Bytes)
    (hl : ctx.lookup path = .ok (id, t)) :
    ErrsOnly ViewError.IsRejection (match requireParent t id with
      | .error e => ctx.refuse e
      | .ok parent => (ctx.add t parent id content).result).1 := by
  split
  next e he => exact errsOnly_error.2 (errsOnly_requireParent id e he)
  next parent hp =>
    refine errsOnly_carryOut hr _
      (errsOnly_planAdd hr.working content hl (requireParent_eq_ok hp)) fun made hmade => ?_
    obtain ⟨_, _, hadds⟩ := planAdd_eq_ok hmade
    exact hadds.grounded _

theorem errsOnly_makeCollection (hr : ctx.repository.Healthy) (path : String) :
    ErrsOnly ViewError.IsRejection (ctx.makeCollection path).1 := by
  simp only [makeCollection]
  split
  next e he => exact errsOnly_error.2 (errsOnly_lookup hr.working path e he).isRejection
  next hl =>
    split
    · exact errsOnly_error.2 trivial
    · exact errsOnly_add hr none hl

theorem errsOnly_put (hr : ctx.repository.Healthy) (path : String) (data : Bytes) :
    ErrsOnly ViewError.IsRejection (ctx.put path data).1 := by
  simp only [put]
  split
  next e he => exact errsOnly_error.2 (errsOnly_lookup hr.working path e he).isRejection
  next hl =>
    split
    · exact errsOnly_error.2 trivial
    · exact errsOnly_add hr (some data) hl

theorem errsOnly_delete (hr : ctx.repository.Healthy) (hdelete : ctx.intent = .delete)
    (path : String) : ErrsOnly ViewError.IsRejection (ctx.delete path).1 := by
  simp only [delete]
  split
  next e he => exact errsOnly_error.2 (errsOnly_lookup hr.working path e he).isRejection
  next id t hl =>
    split
    · exact errsOnly_error.2 trivial
    · split
      next e he => exact errsOnly_error.2 (errsOnly_requireParent id e he)
      next parent hp =>
        refine errsOnly_carryOut hr _
          (errsOnly_planRemove hr.working hl (requireParent_eq_ok hp)) fun made hmade => ?_
        obtain ⟨_, _, hremoves⟩ := planRemove_eq_ok hmade
        exact hremoves.grounded fun a => held_of_lookup hr.working (by rw [hdelete]; rfl)
          (by rw [hdelete]; decide) hl

end Context

namespace Service

/-- While nothing is wrong with the repository, a path that leads nowhere is a bad request, whatever is
intended with it, and a request other than a rename never ends in an internal error. -/
theorem handle_faultless {s : Service} (hr : s.repository.Healthy) (caller : Caller) :
    (∀ (ctx : Context) (t : Tree) (path : String) (e : ViewError), ctx.repository = s.repository →
      (ctx.resolvePath t path).1 = .error e → e.IsBadRequest) ∧
    ∀ (request : Request) (e : ViewError), (∀ path other, request ≠ .rename path other) →
      (s.handle caller request).1 = .error e → e.IsRejection := by
  constructor
  · intro ctx t path e hctx
    exact Context.errsOnly_resolvePath (hctx ▸ hr.working) t path e
  · intro request e hrename
    cases request with
    | list path =>
      rw [handle_list]
      exact errsOnly_map.2 (Context.errsOnly_list hr.working path) e
    | stat path =>
      rw [handle_stat]
      exact errsOnly_map.2 (Context.errsOnly_stat hr.working path) e
    | read path =>
      rw [handle_read]
      exact errsOnly_map.2 (Context.errsOnly_read hr.working rfl path) e
    | makeCollection path =>
      simp only [handle, respond]
      exact errsOnly_map.2 (Context.errsOnly_makeCollection hr path) e
    | put path data =>
      simp only [handle, respond]
      exact errsOnly_map.2 (Context.errsOnly_put hr path data) e
    | delete path =>
      simp only [handle, respond]
      exact errsOnly_map.2 (Context.errsOnly_delete hr rfl path) e
    | rename path other => exact absurd rfl (hrename path other)

/-- A letter group without a letter leads nowhere, and an export is not uploaded. -/
theorem handle_faultless_rejected :
    let s := Service.new (.ofStore (.ofPages [.inSpace "A" (.topLevel "Main")])) .standard
    let caller : Caller := ⟨.anonymous, .allowAll⟩
    let ctx := s.context caller .read
    let request := Request.put "/spaces/Main/_A_/A/wiki.xml" ⟨#[60]⟩
    let e := ViewError.badRequest (.invalidGroupToken "__")
    let e' := ViewError.methodNotAllowed .readOnlyExport
    s.repository.Healthy ∧ (ctx.resolvePath .new "/spaces/Main/__/A").1 = .error e ∧ e.IsBadRequest ∧
      (s.handle caller request).1 = .error e' ∧ e'.IsRejection := by
  intro s caller ctx request e e'
  have hr : s.repository.Healthy := Repository.healthy_ofStore (Store.reachable_ofPages _)
  have hpath : (ctx.resolvePath .new "/spaces/Main/__/A").1 = .error e := by
    dsimp only [s, caller, ctx, e]
    rfl
  have hanswer : (s.handle caller request).1 = .error e' := by
    dsimp only [s, caller, request, e']
    rfl
  obtain ⟨hresolve, hhandle⟩ := handle_faultless hr caller
  exact ⟨hr, hpath, hresolve ctx .new _ e rfl hpath, hanswer, hhandle request e' nofun hanswer⟩

end Service

end WikiMount
