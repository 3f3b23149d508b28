import WikiMount.Proofs.Change.Runs
import WikiMount.Proofs.Node.Offering
import WikiMount.Proofs.Session.ScratchFiles
import WikiMount.Proofs.Storage.Queries
import WikiMount.Proofs.Storage.Upkeep

/-!
# Looking at a file and reading it

Looking at a node asks first whether it is there and then for its bytes, to count them. Reading asks for
the bytes alone. The two ask different things of the repository for every kind of file: the files of a
page and the content of one of them, the stored pages and the document of one of them, the names of the
scratch files and one of them. So they agree because bytes are only found where the file is there, and
because where it is there a look fails as soon as the bytes are not found.
-/

namespace WikiMount

namespace Context

variable {ctx : Context} {t : Tree} {id : Nat} {path : String} {data : Bytes} {found : Stat}

/-! ## What an answer tells -/

theorem read_eq_ok : ctx.read path = .ok data ↔ ∃ id t, ctx.lookup path = .ok (id, t) ∧
    ctx.requireReadable (t.kind id) = .ok () ∧ (ctx.content t id).1 = .ok data := by
  constructor
  · intro h
    obtain ⟨⟨id, t⟩, hl, h⟩ := Except.bind_eq_ok.1 h
    obtain ⟨_, hreadable, h⟩ := Except.bind_eq_ok.1 h
    exact ⟨id, t, hl, hreadable, h⟩
  · rintro ⟨id, t, hl, hreadable, h⟩
    exact Except.bind_eq_ok.2 ⟨_, hl, Except.bind_eq_ok.2 ⟨_, hreadable, h⟩⟩

theorem stat_eq_ok : ctx.stat path = .ok found ↔ ∃ id t, ctx.lookup path = .ok (id, t) ∧
    ctx.requireReadable (t.kind id) = .ok () ∧
    (ctx.isPresent t id = false ∧ found = ⟨t.entry id, false, none, none, none⟩ ∨
      ctx.isPresent t id = true ∧ ∃ times size, ctx.times t id = .ok times ∧
        ctx.fileSize t id = .ok size ∧ found = ⟨t.entry id, true, size, times.1, times.2⟩) := by
  constructor
  · intro h
    obtain ⟨⟨id, t⟩, hl, h⟩ := Except.bind_eq_ok.1 h
    obtain ⟨_, hreadable, h⟩ := Except.bind_eq_ok.1 h
    refine ⟨id, t, hl, hreadable, ?_⟩
    dsimp only at h
    split at h
    next hpresent =>
      obtain ⟨times, htimes, h⟩ := Except.bind_eq_ok.1 h
      obtain ⟨size, hsize, h⟩ := Except.bind_eq_ok.1 h
      exact .inr ⟨hpresent, times, size, htimes, hsize, (Except.ok.inj h).symm⟩
    next hpresent =>
      exact .inl ⟨Bool.not_eq_true _ ▸ hpresent, (Except.ok.inj h).symm⟩
  · rintro ⟨id, t, hl, hreadable, h⟩
    refine Except.bind_eq_ok.2 ⟨_, hl, Except.bind_eq_ok.2 ⟨_, hreadable, ?_⟩⟩
    obtain ⟨hpresent, rfl⟩ | ⟨hpresent, times, size, htimes, hsize, rfl⟩ := h
    · simp only [hpresent]
      rfl
    · simp only [hpresent, if_true]
      exact Except.bind_eq_ok.2 ⟨_, htimes, Except.bind_eq_ok.2 ⟨_, hsize, rfl⟩⟩

/-! ## Bytes are found where the file is -/

theorem content_wikiFile {page : Page} {format : FileFormat} (hk : t.kind id = .wikiFile page format) :
    (ctx.content t id).1 = (t.document ctx.repository id).bind (exported · format) := by
  simp only [content, hk, Tree.fetch]
  cases t.document ctx.repository id <;> rfl

/-- Just the documents that are not new have bytes. -/
theorem exists_exported_iff {d : Document} {format : FileFormat} :
    (∃ data, exported d format = .ok data) ↔ d.isNew = false := by
  cases hnew : d.isNew <;> cases format <;> simp [exported, hnew]

theorem content_scratch {name : String} (hk : t.kind id = .scratch name) :
    (ctx.content t id).1 = .ok data ↔
      ∃ files, ctx.scratch = some files ∧ files.read? (t.path id) = some data := by
  simp only [content, hk, scratchContent, requireScratch]
  cases ctx.scratch with
  | none => simp
  | some files =>
    cases hfile : files.read? (t.path id) <;> simp [hfile]

/-- A repository in working order answers with the document of a node, a new one if it is not stored. -/
theorem document_of_working (ht : t.Resolved) (hbroken : ctx.repository.broken = []) {page : Page}
    (hk : (t.kind id).documentPage? = some page) : t.document ctx.repository id =
      .ok ((ctx.repository.store.documents.get? page).getD (.blank page)) := by
  obtain ⟨space, hspace⟩ := Option.isSome_iff_exists.1 (ht.space_of_document hk)
  rw [ht.document_eq hk, viewed_eq_ok, Repository.document, Repository.asked_of_working hbroken,
    Store.document, Page.requireSpace_eq_ok.2 hspace]

/-- Such a repository tells when the page of a node was created and updated. -/
theorem times_of_working (ht : t.Resolved) (hbroken : ctx.repository.broken = []) (id : Nat) :
    ∃ times, ctx.times t id = .ok times := by
  unfold times
  split
  next hshown =>
    obtain ⟨page, hpage⟩ := Option.isSome_iff_exists.1 hshown
    rw [document_of_working ht hbroken hpage]
    exact ⟨_, rfl⟩
  · exact ⟨_, rfl⟩

/-- What has bytes is a file that is there, and it is known when its page was changed. -/
theorem present_of_content (hread : ctx.intent = .read) (hl : ctx.lookup path = .ok (id, t))
    (h : (ctx.content t id).1 = .ok data) :
    ctx.isPresent t id = true ∧ (t.kind id).isCollection = false ∧
      ∃ times, ctx.times t id = .ok times := by
  have hresolved := (lookup_resolved hl).1
  cases hk : t.kind id with
  | wikiFile page format =>
    have hshown : (t.kind id).documentPage? = some page := by rw [hk]; rfl
    rw [content_wikiFile hk] at h
    obtain ⟨d, hd, hexported⟩ := Except.bind_eq_ok.1 h
    have hdocument : ctx.repository.store.document page = .ok d :=
      Repository.asked_eq_ok (viewed_eq_ok.1 ((hresolved.document_eq hshown _).symm.trans hd))
    refine ⟨?_, rfl, (some d.createdAt, some d.updatedAt), ?_⟩
    · simp only [isPresent, hk]
      exact Store.hasPage_of_document hdocument (exists_exported_iff.1 ⟨data, hexported⟩)
    · simp only [times, hshown, hd]
      rfl
  | attachment a =>
    obtain ⟨files, hfiles, hfile⟩ := files_of_lookup (by rw [hread]; rfl) (by rw [hread]; nofun) hl hk
    refine ⟨?_, rfl, (none, none), ?_⟩
    · simpa [isPresent, hk, finds, hfiles] using hfile
    · simp only [times, hk]
      rfl
  | scratch name =>
    obtain ⟨files, hfiles, hdata⟩ := (content_scratch hk).1 h
    refine ⟨?_, rfl, (none, none), ?_⟩
    · simp only [isPresent, hk, hfiles, Option.any_some]
      exact Option.isSome_iff_exists.2 ⟨data, hdata⟩
    · simp only [times, hk]
      rfl
  | _ => simp [content, hk] at h

theorem stat_of_read (hread : ctx.intent = .read) (h : ctx.read path = .ok data) :
    ∃ found, ctx.stat path = .ok found ∧ found.isPresent = true ∧ found.entry.isCollection = false ∧
      found.size = some data.size := by
  obtain ⟨id, t, hl, hreadable, hcontent⟩ := read_eq_ok.1 h
  obtain ⟨hpresent, hfile, times, htimes⟩ := present_of_content hread hl hcontent
  have hsize : ctx.fileSize t id = .ok (some data.size) := by
    simp [fileSize, hfile, hcontent, Except.map]
  exact ⟨_, stat_eq_ok.2 ⟨id, t, hl, hreadable, .inr ⟨hpresent, times, _, htimes, hsize, rfl⟩⟩, rfl,
    hfile, rfl⟩

theorem read_of_stat (h : ctx.stat path = .ok found) (hpresent : found.isPresent = true)
    (hfile : found.entry.isCollection = false) :
    ∃ data, ctx.read path = .ok data ∧ found.size = some data.size := by
  obtain ⟨id, t, hl, hreadable, ⟨_, rfl⟩ | ⟨_, times, size, _, hsize, rfl⟩⟩ := stat_eq_ok.1 h
  · cases hpresent
  · have hkind : (t.kind id).isCollection = false := hfile
    simp only [fileSize, hkind] at hsize
    obtain ⟨data, hcontent, rfl⟩ := Except.map_eq_ok.1 hsize
    exact ⟨data, read_eq_ok.2 ⟨id, t, hl, hreadable, hcontent⟩, rfl⟩

/-- A size is told of files that are there only. -/
theorem file_of_size {n : Nat} (h : ctx.stat path = .ok found) (hsize : found.size = some n) :
    found.isPresent = true ∧ found.entry.isCollection = false := by
  obtain ⟨id, t, _, _, ⟨_, rfl⟩ | ⟨_, times, size, _, hasked, rfl⟩⟩ := stat_eq_ok.1 h
  · cases hsize
  · refine ⟨rfl, ?_⟩
    obtain rfl : size = some n := hsize
    cases hkind : (t.kind id).isCollection with
    | false => exact hkind
    | true => simp [fileSize, hkind] at hasked

/-! ## Where the file is bytes are found -/

/-- In a repository that is kept up and in working order what is there can be read. -/
theorem exists_content (hs : ctx.repository.store.Upkept) (hbroken : ctx.repository.broken = [])
    (ht : t.Resolved) (hpresent : ctx.isPresent t id = true)
    (hfile : (t.kind id).isCollection = false) : ∃ data, (ctx.content t id).1 = .ok data := by
  cases hk : t.kind id with
  | wikiFile page format =>
    have hshown : (t.kind id).documentPage? = some page := by rw [hk]; rfl
    simp only [isPresent, hk] at hpresent
    obtain ⟨d, hd⟩ := Option.isSome_iff_exists.1 hpresent
    rw [content_wikiFile hk, document_of_working ht hbroken hshown, hd]
    exact exists_exported_iff.2 (hs.dated page d hd).1
  | attachment a =>
    have hheld : a.file ∈ (ctx.repository.store.filesOf a.page).keys := by
      simpa [isPresent, hk, finds, Repository.files, Repository.asked_of_working hbroken] using hpresent
    obtain ⟨data, hdata⟩ := Store.exists_content hheld
    refine ⟨data, ?_⟩
    simp only [content, hk, Repository.content, Repository.asked_of_working hbroken, hdata, viewed]
  | scratch name =>
    simp only [isPresent, hk] at hpresent
    cases hfiles : ctx.scratch with
    | none => simp [hfiles] at hpresent
    | some files =>
      simp only [hfiles, Option.any_some] at hpresent
      obtain ⟨data, hdata⟩ := Option.isSome_iff_exists.1 hpresent
      exact ⟨data, (content_scratch hk).2 ⟨files, hfiles, hdata⟩⟩
  | space space view =>
    rw [hk] at hfile
    cases view <;> cases hfile
  | _ =>
    rw [hk] at hfile
    cases hfile

/-- Looking at what is found fails in such a repository only if it may not be viewed. -/
theorem exists_stat_iff (hs : ctx.repository.store.Upkept) (hbroken : ctx.repository.broken = []) :
    (∃ found, ctx.stat path = .ok found) ↔ ∃ id t, ctx.lookup path = .ok (id, t) ∧
      ctx.requireReadable (t.kind id) = .ok () := by
  constructor
  · rintro ⟨found, h⟩
    obtain ⟨id, t, hl, hreadable, _⟩ := stat_eq_ok.1 h
    exact ⟨id, t, hl, hreadable⟩
  · rintro ⟨id, t, hl, hreadable⟩
    have ht := (lookup_resolved hl).1
    cases hpresent : ctx.isPresent t id with
    | false => exact ⟨_, stat_eq_ok.2 ⟨id, t, hl, hreadable, .inl ⟨hpresent, rfl⟩⟩⟩
    | true =>
      obtain ⟨times, htimes⟩ := times_of_working ht hbroken id
      have hsize : ∃ size, ctx.fileSize t id = .ok size := by
        cases hfile : (t.kind id).isCollection with
        | true => exact ⟨none, by simp [fileSize, hfile]⟩
        | false =>
          obtain ⟨data, hdata⟩ := exists_content hs hbroken ht hpresent hfile
          exact ⟨some data.size, by simp [fileSize, hfile, hdata, Except.map]⟩
      obtain ⟨size, hsize⟩ := hsize
      exact ⟨_, stat_eq_ok.2
        ⟨id, t, hl, hreadable, .inr ⟨hpresent, times, size, htimes, hsize, rfl⟩⟩⟩

end Context

/-- The answer to a look at a path and the answer to a read of it agree on whether there is a file, and on
its size. -/
structure Response.Agree (looked read : Except ViewError Response) : Prop where
  /-- There are bytes to be read exactly if the look shows a file that is there. -/
  file : (∃ data, read = .ok (.content data)) ↔
    ∃ found, looked = .ok (.stat found) ∧ found.isPresent = true ∧ found.entry.isCollection = false
  /-- A size is told exactly if there are bytes to be read, and is their number. -/
  size : ∀ n, (∃ found, looked = .ok (.stat found) ∧ found.size = some n) ↔
    ∃ data, read = .ok (.content data) ∧ data.size = n

theorem Context.agree {ctx : Context} (hread : ctx.intent = .read) (path : String) :
    Response.Agree ((ctx.stat path).map .stat) ((ctx.read path).map .content) := by
  have hlooked : ∀ found, (ctx.stat path).map Response.stat = .ok (.stat found) ↔
      ctx.stat path = .ok found := by
    simp [Except.map_eq_ok]
  have hcontent : ∀ data, (ctx.read path).map Response.content = .ok (.content data) ↔
      ctx.read path = .ok data := by
    simp [Except.map_eq_ok]
  constructor
  · simp only [hlooked, hcontent]
    constructor
    · rintro ⟨data, h⟩
      obtain ⟨found, hstat, hpresent, hfile, _⟩ := stat_of_read hread h
      exact ⟨found, hstat, hpresent, hfile⟩
    · rintro ⟨found, h, hpresent, hfile⟩
      obtain ⟨data, hdata, _⟩ := read_of_stat h hpresent hfile
      exact ⟨data, hdata⟩
  · intro n
    simp only [hlooked, hcontent]
    constructor
    · rintro ⟨found, h, hsize⟩
      obtain ⟨hpresent, hfile⟩ := file_of_size h hsize
      obtain ⟨data, hdata, hsame⟩ := read_of_stat h hpresent hfile
      exact ⟨data, hdata, Option.some.inj (hsame.symm.trans hsize)⟩
    · rintro ⟨data, h, rfl⟩
      obtain ⟨found, hstat, _, _, hsize⟩ := stat_of_read hread h
      exact ⟨found, hstat, hsize⟩

namespace Service

variable {s : Service}

/-- While the clock stands still a request that reads finds what one before it has found. -/
theorem context_again {α : Type} (h : s.sessions.Sound) (caller : Caller)
    (f : Context → Except ViewError α) :
    (s.run caller .read (reading f)).2.context caller .read = s.context caller .read :=
  congrArg (fun w => (⟨w, caller, s.config, .read⟩ : Context)) (run_context h .read rfl)

/-- A path may be looked at first and then read, or the other way round: the answers agree on whether
there is a file and on its size, in every repository and for every caller. -/
theorem handle_stat_read (hs : s.sessions.Sound) (caller : Caller) (path : String) :
    let looked := s.handle caller (.stat path)
    let read := s.handle caller (.read path)
    Response.Agree looked.1 (looked.2.handle caller (.read path)).1 ∧
      Response.Agree (read.2.handle caller (.stat path)).1 read.1 := by
  intro looked read
  have hagree := (s.context caller .read).agree rfl path
  constructor
  · have hagain : looked.2.context caller .read = s.context caller .read :=
      context_again hs caller fun ctx => ctx.stat path
    rw [handle_read, hagain]
    exact hagree
  · have hagain : read.2.context caller .read = s.context caller .read :=
      context_again hs caller fun ctx => ctx.read path
    rw [handle_stat, hagain]
    exact hagree

/-- The size of an attachment is told before it is read, and the wiki text of a page that is not stored is
found missing before there is nothing to read. -/
theorem handle_stat_read_attachment :
    let a := Page.inSpace "A" (.topLevel "Main")
    let store := ((Store.ofPages [a]).write (.attach ⟨a, "a.txt"⟩ ⟨#[1, 2]⟩)).2
    let s := Service.new (.ofStore store) .standard
    let caller : Caller := ⟨.anonymous, .allowAll⟩
    (∃ data, ((s.handle caller (.stat "/spaces/Main/A/a.txt")).2.handle caller
        (.read "/spaces/Main/A/a.txt")).1 = .ok (.content data) ∧ data.size = 2) ∧
    ¬∃ data, ((s.handle caller (.stat "/spaces/Main/A/B/wiki.txt")).2.handle caller
        (.read "/spaces/Main/A/B/wiki.txt")).1 = .ok (.content data) := by
  intro a store s caller
  have hs : s.sessions.Sound := .ofConfig _
  have hfile : (s.handle caller (.stat "/spaces/Main/A/a.txt")).1 = .ok (.stat ⟨⟨"a.txt",
      "/spaces/Main/A/a.txt", .attachment, false, some (.attachment ⟨a, "a.txt"⟩)⟩, true, some 2, none,
      none⟩) := by
    dsimp only [s, store, caller, a]
    rfl
  have hmissing : (s.handle caller (.stat "/spaces/Main/A/B/wiki.txt")).1 = .ok (.stat ⟨⟨"wiki.txt",
      "/spaces/Main/A/B/wiki.txt", .wikiFile, false, some (.page (.inSpace "B" (.topLevel "Main")))⟩,
      false, none, none, none⟩) := by
    dsimp only [s, store, caller, a]
    rfl
  refine ⟨((handle_stat_read hs caller _).1.size 2).1 ⟨_, hfile, rfl⟩, fun hread => ?_⟩
  obtain ⟨found, hfound, hpresent, _⟩ := (handle_stat_read hs caller _).1.file.1 hread
  rw [hmissing] at hfound
  obtain rfl := Response.stat.inj (Except.ok.inj hfound)
  cases hpresent

end Service

end WikiMount
