import WikiMount.Proofs.Change.Authority
import WikiMount.Proofs.Node.EnclosingDirectory
import WikiMount.Proofs.Node.Visibility

/-!
# Uploads are read back

An upload that succeeds changes the file that it is about and nothing else: one file of a page, the text of
one page, or one scratch file of the caller. Reading the same path then answers with the bytes that were
uploaded. The way to the file is decoded by what the repository holds, so it must be looked at again: the
upload leaves it open which pages and spaces there are, and of the files of pages it changes only those of
the page that holds the file. If that page is met once, the tokens above it name what they named before.
-/

namespace WikiMount

/-- A text that was read from bytes is written as these bytes. -/
theorem toUTF8_of_fromUTF8? {data : Bytes} {text : String} (h : String.fromUTF8? data = some text) :
    text.toUTF8 = data := by
  simp only [String.fromUTF8?] at h
  split at h
  · exact congrArg String.toUTF8 (Option.some.inj h).symm
  · cases h

namespace Store

/-- The stores differ in one file of a page at most, which has these bytes in the second one. -/
structure FilePut (s : Store) (a : Attachment) (data : Bytes) (s' : Store) : Prop where
  spaces : s'.spaces = s.spaces
  documents : s'.documents = s.documents
  clock : s'.clock = s.clock
  files : ∀ page file, (s'.filesOf page).get? file =
    if page = a.page ∧ file = a.file then some data else (s.filesOf page).get? file

/-- The stores differ in the text of a page, which has these bytes in the second one, and in when the page
was last updated. -/
structure TextPut (s : Store) (page : Page) (data : Bytes) (s' : Store) : Prop where
  spaces : s'.spaces = s.spaces
  attachments : s'.attachments = s.attachments
  clock : s'.clock = s.clock + 1
  others : ∀ other, other ≠ page → s'.documents.get? other = s.documents.get? other
  document : ∃ d text, s.documents.get? page = some d ∧ text.toUTF8 = data ∧
    s'.documents.get? page = some { d with content := text, updatedAt := s.clock + 1 }

variable {s s' : Store} {a : Attachment} {page : Page} {data : Bytes} {d : Document} {text : String}

theorem filePut_attach (hstored : s.hasPage a.page = true) (h : s.attach a data = .ok s') :
    s.FilePut a data s' := by
  obtain ⟨made, hmade, rfl⟩ := attach_eq_ok h
  obtain ⟨_, rfl⟩ | ⟨hnot, _⟩ := ensurePage_eq_ok hmade
  · refine ⟨rfl, rfl, rfl, fun page file => ?_⟩
    rw [filesOf_putFile]
    by_cases hpage : page = a.page
    · simp only [hpage, if_pos, true_and, SortedMap.get?_insert, Std.LawfulEqCmp.compare_eq_iff_eq]
    · simp only [hpage, if_false, false_and]
  · rw [hstored] at hnot
    cases hnot

theorem textPut_save (hs : s.Coherent) (hu : s.Upkept) (hd : s.documents.get? page = some d)
    (htext : text.toUTF8 = data) (h : s.save { d with content := text } = .ok s') :
    s.TextPut page data s' := by
  have hpage : d.reference = page := hs.filed page d hd
  obtain ⟨hnew, hcreated⟩ := hu.dated page d hd
  have hspaces : ∀ other, s'.hasSpace other = s.hasSpace other := by
    intro other
    rw [Bool.eq_iff_iff, hasSpace_save h]
    refine ⟨fun hother => ?_, .inr⟩
    obtain ⟨own, hown, hmem⟩ | hother := hother
    · obtain ⟨space, hspace, hknown⟩ := hs.known page d hd
      obtain rfl : space = own := Option.some.inj (hspace.symm.trans (hpage ▸ hown))
      exact hu.hasSpace_of_lineage hknown hmem
    · exact hother
  have hsaved : ({ d with content := text } : Document).savedAt (s.clock + 1) =
      { d with content := text, updatedAt := s.clock + 1 } := by
    simp [Document.savedAt, hnew, hcreated]
  have hdocuments := document?_save h
  obtain ⟨own, _, rfl⟩ := save_eq_ok h
  refine ⟨SortedMap.eq_of_contains hspaces, rfl, rfl, fun other hother => ?_, d, text, hd, htext, ?_⟩
  · rw [hdocuments, if_neg (hpage ▸ hother)]
  · rw [hdocuments, if_pos hpage.symm, hsaved]

/-! ## What decoding asks -/

theorem FilePut.hasPage (h : s.FilePut a data s') (other : Page) : s'.hasPage other = s.hasPage other :=
  hasPage_congr (by rw [h.documents])

theorem FilePut.filesOf (h : s.FilePut a data s') {other : Page} (hother : other ≠ a.page) :
    s'.filesOf other = s.filesOf other :=
  SortedMap.ext_get? fun file => by rw [h.files, if_neg fun hfile => hother hfile.1]

theorem FilePut.content (h : s.FilePut a data s') : s'.content a = .ok data := by
  simp only [Store.content, h.files, and_self, if_pos]

theorem TextPut.hasPage (h : s.TextPut page data s') (other : Page) :
    s'.hasPage other = s.hasPage other := by
  by_cases hother : other = page
  · obtain ⟨d, text, hd, _, hd'⟩ := h.document
    rw [hother, hasPage_eq, hasPage_eq, hd, hd']
    rfl
  · exact hasPage_congr (h.others other hother)

theorem TextPut.filesOf (h : s.TextPut page data s') (other : Page) :
    s'.filesOf other = s.filesOf other := by
  simp only [Store.filesOf, h.attachments]

end Store

/-- What an upload changes of a workspace, by the kind of the node that it is about. -/
inductive Workspace.Uploaded (w : Workspace) (path : String) (data : Bytes) (w' : Workspace) :
    NodeKind → Prop
  | attachment {a : Attachment} (hscratch : w'.scratch = w.scratch)
      (hrepository : w'.repository = { w.repository with
        store := w'.repository.store, writes := w.repository.writes + 1 })
      (h : w.repository.store.FilePut a data w'.repository.store) :
      Uploaded w path data w' (.attachment a)
  | text {page : Page} (hscratch : w'.scratch = w.scratch)
      (hrepository : w'.repository = { w.repository with
        store := w'.repository.store, writes := w.repository.writes + 1 })
      (h : w.repository.store.TextPut page data w'.repository.store) :
      Uploaded w path data w' (.wikiFile page .text)
  | scratch {name : String} {files files' : Scratch} (hrepository : w'.repository = w.repository)
      (hfiles : w.scratch = some files) (hfiles' : w'.scratch = some files')
      (h : ∀ file, files'.read? file = if file = path then some data else files.read? file) :
      Uploaded w path data w' (.scratch name)

namespace Workspace.Uploaded

variable {w w' : Workspace} {path : String} {data : Bytes} {kind above : NodeKind}

theorem broken (h : w.Uploaded path data w' kind) : w'.repository.broken = w.repository.broken := by
  cases h with
  | attachment _ hrepository _ | text _ hrepository _ => rw [hrepository]
  | scratch hrepository _ _ _ => rw [hrepository]

theorem exists_scratch {files : Scratch} (h : w.Uploaded path data w' kind)
    (hfiles : w.scratch = some files) : ∃ files', w'.scratch = some files' := by
  cases h with
  | attachment hscratch _ _ | text hscratch _ _ => exact ⟨files, hscratch.trans hfiles⟩
  | scratch _ _ hfiles' _ => exact ⟨_, hfiles'⟩

/-- An upload changes nothing that decoding asks for, but for the files of the page it is about. -/
theorem agreesBelow (h : w.Uploaded path data w' kind)
    (habove : ∀ page, kind.holder? = some page → above ≠ .page page) :
    w.repository.AgreesBelow above w'.repository := by
  have hbroken := h.broken
  have hfiles : ∀ page, w'.repository.store.filesOf page = w.repository.store.filesOf page →
      w'.repository.files page = w.repository.files page := fun page hsame => by
    simp only [Repository.files, Repository.asked, hbroken, hsame]
  cases h with
  | @attachment a _ _ h =>
    refine ⟨h.hasPage, fun space => ?_, fun page hpage => hfiles page (h.filesOf ?_)⟩
    · simp only [Repository.hasSpace, Store.hasSpace, h.spaces]
    · rintro rfl
      exact habove _ rfl hpage
  | text _ _ h =>
    refine ⟨h.hasPage, fun space => ?_, fun page _ => hfiles page (h.filesOf page)⟩
    simp only [Repository.hasSpace, Store.hasSpace, h.spaces]
  | scratch hrepository _ _ _ =>
    rw [hrepository]
    exact .refl above _

end Workspace.Uploaded

namespace Context

variable {ctx ctx' : Context} {t : Tree} {id dir : Nat} {path token : String} {tokens : List String}
  {data : Bytes} {parent kind : NodeKind}

/-! ## Uploading -/

/-- An upload that succeeds has carried out a plan to add the file that is found at its path. -/
theorem put_eq_ok (hl : ctx.lookup path = .ok (id, t)) (hok : (ctx.put path data).1 = .ok ()) :
    ∃ dir plan, (t.kind id).isCollection = false ∧ t.AnswersFor dir id ∧
      ctx.Adds t dir id (some data) plan ∧ ctx.put path data = plan.execute ctx.toWorkspace := by
  simp only [put, hl] at hok ⊢
  split at hok
  · cases hok
  next hfile =>
    obtain ⟨dir, plan, ht, hadds, heq⟩ := add_eq_ok hl rfl hok
    refine ⟨dir, plan, by simpa using hfile, ht, hadds, ?_⟩
    rw [if_neg hfile]
    exact heq

theorem put_uploaded {files : Scratch} (hs : ctx.repository.store.Reachable)
    (hfiles : ctx.scratch = some files) (hl : ctx.lookup path = .ok (id, t))
    (hheld : ∀ page, (t.kind id).holder? = some page → ctx.repository.hasPage page = true)
    (hok : (ctx.put path data).1 = .ok ()) :
    ctx.toWorkspace.Uploaded (t.path id) data (ctx.put path data).2 (t.kind id) := by
  obtain ⟨dir, plan, hfile, ht, hadds, hput⟩ := put_eq_ok hl hok
  rw [hput] at hok ⊢
  cases hadds with
  | scratch hchild =>
    rw [hchild]
    refine .scratch rfl hfiles (congrArg (Option.map _) hfiles) fun file => ?_
    exact Scratch.read?_write files (t.path id) file data
  | below _ hchild _ _ _ | inSpace _ hchild _ _ =>
    rw [hchild] at hfile
    cases hfile
  | @home _ view _ _ hchild _ _ =>
    rw [hchild] at hfile
    cases view <;> cases hfile
  | @text page owner _ text d hdir hchild _ hdata htext hd =>
    obtain rfl := Option.some.inj hdata
    have howner : (t.kind id).holder? = some owner := by
      rw [hchild]
      rfl
    obtain rfl := NodeKind.page.inj (hdir.symm.trans (ht.page_of_held howner))
    obtain ⟨hwrite, hcounted⟩ := Repository.perform_stored hok
    have hfiled : ctx.repository.store.documents.get? page = some d := by
      rw [ht.resolved.document_eq (by rw [hdir]; rfl), viewed_eq_ok] at hd
      exact (Store.document_eq_ok_iff hs.coherent (hheld page howner)).1 (Repository.asked_eq_ok hd)
    rw [hchild]
    exact .text rfl hcounted (Store.textPut_save hs.coherent hs.upkept hfiled
      (toUTF8_of_fromUTF8? htext) (Store.settle_eq_ok hwrite))
  | @attach page a _ hdir hchild _ hdata =>
    obtain rfl := Option.some.inj hdata
    have hstored : ctx.repository.hasPage a.page = true := by
      refine hheld a.page ?_
      rw [hchild]
      rfl
    obtain ⟨hwrite, hcounted⟩ := Repository.perform_stored hok
    rw [hchild]
    exact .attachment rfl hcounted (Store.filePut_attach hstored (Store.settle_eq_ok hwrite))

/-! ## Reading -/

/-- The token of a file names it to a read once the file has been uploaded. -/
theorem Decodes.uploaded (h : ctx.Decodes token true parent kind)
    (hu : ctx.toWorkspace.Uploaded path data ctx'.toWorkspace kind)
    (hbroken : ctx.repository.broken = []) : ctx'.Decodes token true parent kind := by
  have hbroken' : ctx'.repository.broken = [] := hu.broken.trans hbroken
  cases h with
  | scratch hparent htoken => exact .scratch hparent htoken
  | wikiFile htoken h => exact .wikiFile htoken h
  | @attachment page _ htoken hformat hfiles _ =>
    cases hu with
    | attachment _ _ hput =>
      have hfile : token ∈ (ctx'.repository.store.filesOf page).keys := by
        rw [SortedMap.mem_keys, SortedMap.contains, hput.files, if_pos ⟨rfl, rfl⟩]
        rfl
      have hanswer : ctx'.repository.files page = .ok (ctx'.repository.store.filesOf page).keys :=
        Repository.asked_of_working hbroken'
      refine .attachment htoken hformat hanswer ?_
      rw [namesFile, List.contains_iff_mem.2 hfile]
      rfl
  | view _ hview => obtain ⟨_, rfl⟩ | rfl := decodeBaseView_ok hview <;> cases hu
  -- What else can be found is a directory, which is never uploaded.
  | _ => cases hu

/-- A way is found again over a repository that answers alike at every node before its end. -/
theorem enter_agreeing (hcreate : ctx'.intent.isCreateCollection = ctx.intent.isCreateCollection)
    (h : ctx.enter .new 0 tokens = .ok (dir, t))
    (hagree : ∀ above ∈ (t.describe dir).dropLast,
      ctx.repository.AgreesBelow above.1 ctx'.repository) :
    ctx'.enter .new 0 tokens = .ok (dir, t) := by
  refine enter_transfer (fun chain => ∀ above ∈ chain.dropLast,
    ctx.repository.AgreesBelow above.1 ctx'.repository) (fun chain last hchain above habove => ?_)
    (fun {t id token kind} hchain hk => ?_) h hagree
  · rw [List.dropLast_concat] at hchain
    exact hchain above (List.dropLast_subset _ habove)
  · rw [List.dropLast_concat] at hchain
    have hparent : ctx.repository.AgreesBelow (t.kind id) ctx'.repository :=
      hchain _ (List.mem_of_mem_getLast? (t.getLast?_describe id))
    exact hk.congr hparent rfl rfl rfl fun _ _ => hcreate

/-- A page that is met once on a way that ends at it is not met before. -/
theorem ne_of_count_eq_one {chain : List (NodeKind × String)} {above : NodeKind × String}
    (hlast : ∃ segment, chain.getLast? = some (kind, segment))
    (honce : (chain.map Prod.fst).count kind = 1) (habove : above ∈ chain.dropLast) :
    above.1 ≠ kind := by
  obtain ⟨segment, hlast⟩ := hlast
  intro hsame
  rw [← List.dropLast_append_getLast? (kind, segment) hlast] at honce
  have hmem : kind ∈ chain.dropLast.map Prod.fst := List.mem_map.2 ⟨above, habove, hsame⟩
  have hcount := List.count_pos_iff.2 hmem
  simp only [List.map_append, List.count_append, List.map_cons, List.map_nil,
    List.count_singleton_self] at honce
  omega

/-- A file is found again once it has been uploaded, if its page is met once on the way. -/
theorem lookup_uploaded (hcreate : ctx.intent = .createFile) (hread : ctx'.intent = .read)
    (hbroken : ctx.repository.broken = []) (hl : ctx.lookup path = .ok (id, t))
    (honce : ∀ page, (t.kind id).holder? = some page →
      ((t.describe id).map Prod.fst).count (.page page) = 1)
    (hu : ctx.toWorkspace.Uploaded (t.path id) data ctx'.toWorkspace (t.kind id)) :
    ctx'.lookup path = .ok (id, t) := by
  have hroot : t.kind id ≠ .root := by
    intro hroot
    rw [hroot] at hu
    cases hu
  obtain ⟨tokens, token, parent, mid, htokens, henter, hstep⟩ := lookup_last hl hroot
  obtain ⟨hmid, _, hlt⟩ := enter_resolved .new (by decide) henter
  obtain ⟨kind, hdecodes, hinsert⟩ := step_eq_ok.1 hstep
  obtain rfl : t.kind id = kind := Tree.kind_insert_self hinsert
  have hfits : (mid.kind parent).FitsBelow (t.kind id) :=
    hdecodes.fitsBelow (Tree.insert_eq_ok hinsert).1
  have hagree : ∀ above ∈ (mid.describe parent).dropLast,
      ctx.repository.AgreesBelow above.1 ctx'.repository := by
    refine fun above habove => hu.agreesBelow fun page hheld => ?_
    have hparent : mid.kind parent = .page page := hfits.of_held hheld
    have hfile : t.kind id ≠ .page page := by
      intro hpage
      rw [hpage] at hheld
      cases hheld
    have hpage := honce page hheld
    rw [step_describe hmid.ordered hlt hstep, List.map_append, List.count_append, List.map_singleton,
      List.count_singleton, if_neg (by simpa using hfile)] at hpage
    exact ne_of_count_eq_one ⟨_, hparent ▸ mid.getLast?_describe parent⟩ hpage habove
  have hsame : ctx'.intent.isCreateCollection = ctx.intent.isCreateCollection := by
    rw [hcreate, hread]
    rfl
  refine lookup_eq_ok_iff.2 (resolvePath_eq_ok_iff.2 ⟨_, htokens, resolve_concat_eq_ok.2 ?_⟩)
  exact ⟨parent, mid, enter_agreeing hsame henter hagree,
    step_eq_ok.2 ⟨_, hdecodes.uploaded hu hbroken, hinsert⟩⟩

/-- The bytes of a file that has been uploaded. -/
theorem content_uploaded (hs : ctx.repository.store.Reachable) (hbroken : ctx.repository.broken = [])
    (ht : t.Resolved)
    (hu : ctx.toWorkspace.Uploaded (t.path id) data ctx'.toWorkspace (t.kind id)) :
    (ctx'.content t id).1 = .ok data := by
  have hbroken' : ctx'.repository.broken = [] := hu.broken.trans hbroken
  generalize hk : t.kind id = kind at hu
  cases hu with
  | attachment _ _ hput =>
    simp only [content, hk, Repository.content, Repository.asked_of_working hbroken', hput.content,
      viewed]
  | @text page _ _ hput =>
    obtain ⟨d, text, hd, htext, hd'⟩ := hput.document
    have hnew := (hs.upkept.dated page d hd).1
    have hshown : (t.kind id).documentPage? = some page := by rw [hk]; rfl
    rw [content_wikiFile hk, document_of_working ht hbroken' hshown, hd']
    simp only [Except.bind, exported, hnew]
    exact congrArg Except.ok htext
  | scratch _ _ hfiles' h =>
    have hfile := h (t.path id)
    rw [if_pos rfl] at hfile
    simp only [content, hk, scratchContent, requireScratch, hfiles', hfile]

theorem read_uploaded (hs : ctx.repository.store.Reachable) (hbroken : ctx.repository.broken = [])
    (hcreate : ctx.intent = .createFile) (hread : ctx'.intent = .read)
    (hl : ctx.lookup path = .ok (id, t))
    (honce : ∀ page, (t.kind id).holder? = some page →
      ((t.describe id).map Prod.fst).count (.page page) = 1)
    (hu : ctx.toWorkspace.Uploaded (t.path id) data ctx'.toWorkspace (t.kind id))
    (hshows : ctx'.caller.policy.Shows (t.kind id).reference?) : ctx'.read path = .ok data := by
  have hlookup := lookup_uploaded hcreate hread hbroken hl honce hu
  have hcontent := content_uploaded hs hbroken (lookup_resolved hl).1 hu
  exact read_eq_ok.2 ⟨id, t, hlookup, requireReadable_eq_ok.2 hshows, hcontent⟩

end Context

namespace Service

variable {s : Service} {caller : Caller} {path : String} {data : Bytes} {id : Nat} {t : Tree}

/-- An upload that succeeds is read back at the same path, and nothing but the uploaded file has changed
for anyone. The page of the file must have been stored and must be met once on the way to it. -/
theorem handle_put_read (hs : s.sessions.Sound) (hr : s.repository.store.Reachable)
    (hbroken : s.repository.broken = [])
    (hl : (s.context caller .createFile).lookup path = .ok (id, t))
    (hheld : ∀ page, (t.kind id).holder? = some page → s.repository.hasPage page = true ∧
      ((t.describe id).map Prod.fst).count (.page page) = 1)
    (hok : (s.handle caller (.put path data)).1 = .ok .done) :
    let s' := (s.handle caller (.put path data)).2
    (caller.policy.Shows (t.kind id).reference? →
      (s'.handle caller (.read path)).1 = .ok (.content data)) ∧
    (s.context caller .createFile).toWorkspace.Uploaded (t.path id) data
      (s'.context caller .read).toWorkspace (t.kind id) ∧
    ∀ n, n ≠ (s.sessions.getOrCreate caller.principal.name).1 →
      s'.sessions.storage n = s.sessions.storage n := by
  intro s'
  have hrun : s' = (s.run caller .createFile fun ctx => ctx.put path data).2 := rfl
  have hput : ((s.context caller .createFile).put path data).1 = .ok () := by
    obtain ⟨_, hput, _⟩ := Except.map_eq_ok.1 hok
    exact hput
  have huploaded : (s.context caller .createFile).toWorkspace.Uploaded (t.path id) data
      ((s.context caller .createFile).put path data).2 (t.kind id) :=
    Context.put_uploaded hr rfl hl (fun page hpage => (hheld page hpage).1) hput
  obtain ⟨files, hfiles⟩ := huploaded.exists_scratch rfl
  have hnext : (s'.context caller .read).toWorkspace =
      ((s.context caller .createFile).put path data).2 := by
    rw [hrun]
    exact run_context hs .read hfiles
  rw [← hnext] at huploaded
  refine ⟨fun hshows => ?_, huploaded, fun n hn => ?_⟩
  · have hread : (s'.context caller .read).read path = .ok data :=
      Context.read_uploaded hr hbroken rfl rfl hl (fun page hpage => (hheld page hpage).2)
        huploaded hshows
    rw [handle_read, hread]
    rfl
  · rw [hrun]
    exact run_storage hn

/-- A file that is uploaded to a page below another page. -/
theorem handle_put_read_below_page :
    let a := Page.inSpace "A" (.topLevel "Main")
    let b := Page.inSpace "B" (.topLevel "Main")
    let s := Service.new (.ofStore (.ofPages [a, b])) .standard
    let caller : Caller := ⟨.anonymous, .allowAll⟩
    let data : Bytes := ⟨#[1, 2, 3]⟩
    let s' := (s.handle caller (.put "/spaces/Main/A/B/c.txt" data)).2
    (s'.handle caller (.read "/spaces/Main/A/B/c.txt")).1 = .ok (.content data) ∧
      s.repository.store.FilePut ⟨b, "c.txt"⟩ data s'.repository.store := by
  intro a b s caller data s'
  let t : Tree := ⟨#[.root, ⟨.baseView .pages, "spaces", some 0, none⟩,
    ⟨.space (.topLevel "Main") .pages, "Main", some 1, none⟩, ⟨.page a, "A", some 2, none⟩,
    ⟨.page b, "B", some 3, none⟩, ⟨.attachment ⟨b, "c.txt"⟩, "c.txt", some 4, none⟩]⟩
  have hl : (s.context caller .createFile).lookup "/spaces/Main/A/B/c.txt" = .ok (5, t) := by
    dsimp only [s, caller, t, a, b]
    rfl
  have hheld : ∀ page, (t.kind 5).holder? = some page → s.repository.hasPage page = true ∧
      ((t.describe 5).map Prod.fst).count (.page page) = 1 := by
    intro page hpage
    obtain rfl : b = page := Option.some.inj hpage
    exact ⟨by decide, by decide⟩
  have hok : (s.handle caller (.put "/spaces/Main/A/B/c.txt" data)).1 = .ok .done := by
    dsimp only [s, caller, data, a, b]
    rfl
  have hs : s.sessions.Sound := .ofConfig _
  have hr : s.repository.store.Reachable := Store.reachable_ofPages [a, b]
  obtain ⟨hread, huploaded, _⟩ := handle_put_read hs hr rfl hl hheld hok
  refine ⟨hread (Policy.shows_of_grants rfl), ?_⟩
  cases huploaded with
  | attachment _ _ hput => exact hput

end Service

end WikiMount
