import WikiMount.Storage.Store

/-!
# What writes do to the store

A write is described by what it does to three views of the store: the document of a page, the files
of a page, and the spaces that are known. Each law gives the view of the store afterwards in terms of
the view before, for every page or space at once, so nothing below has to look into a write again.
-/

namespace WikiMount

theorem Page.requireSpace_eq_ok {p : Page} {space : Space} :
    p.requireSpace = .ok space ↔ p.space = some space := by
  simp only [requireSpace]
  cases p.space <;> simp

@[simp] theorem Document.reference_blank (p : Page) : (Document.blank p).reference = p := rfl

namespace Store

variable {s s' : Store} {p q : Page} {a b : Attachment}

theorem hasPage_eq (s : Store) (p : Page) : s.hasPage p = (s.documents.get? p).isSome := rfl

/-- Two stores with the same document of a page both hold it or both do not. -/
theorem hasPage_congr (h : s'.documents.get? p = s.documents.get? p) :
    s'.hasPage p = s.hasPage p := by
  rw [hasPage_eq, hasPage_eq, h]

theorem mem_pagesIn {space : Space} :
    p ∈ s.pagesIn space ↔ s.hasPage p = true ∧ p.isIn space = true := by
  rw [pagesIn, List.mem_filter, SortedMap.mem_keys]
  exact Iff.rfl

/-! ## Saving -/

theorem save_eq_ok {d : Document} (h : s.save d = .ok s') :
    ∃ space, d.reference.space = some space ∧
      s' = { s.registerSpace space with
        documents := s.documents.insert d.reference (d.savedAt (s.clock + 1))
        clock := s.clock + 1 } := by
  simp only [save] at h
  split at h
  · cases h
  next space hs => exact ⟨space, Page.requireSpace_eq_ok.1 hs, (Except.ok.inj h).symm⟩

theorem document?_save {d : Document} (h : s.save d = .ok s') (q : Page) :
    s'.documents.get? q =
      if q = d.reference then some (d.savedAt (s.clock + 1)) else s.documents.get? q := by
  obtain ⟨_, _, rfl⟩ := save_eq_ok h
  simp only [SortedMap.get?_insert, Std.LawfulEqCmp.compare_eq_iff_eq]

theorem filesOf_save {d : Document} (h : s.save d = .ok s') (q : Page) :
    s'.filesOf q = s.filesOf q := by
  obtain ⟨_, _, rfl⟩ := save_eq_ok h
  rfl

theorem hasSpace_save {d : Document} (h : s.save d = .ok s') {space : Space} :
    s'.hasSpace space = true ↔
      (∃ own, d.reference.space = some own ∧ space ∈ own.lineage) ∨ s.hasSpace space = true := by
  obtain ⟨own, hown, rfl⟩ := save_eq_ok h
  simp only [hown, Option.some.injEq, exists_eq_left']
  exact hasSpace_registerSpace

theorem save_error {d : Document} {e : StorageError} (h : s.save d = .error e) :
    d.reference.space = none := by
  simp only [save] at h
  cases hd : d.reference.space with
  | none => rfl
  | some space => simp [Page.requireSpace_eq_ok.2 hd] at h

theorem ensurePage_eq_ok (h : s.ensurePage p = .ok s') :
    s.hasPage p = true ∧ s' = s ∨ s.hasPage p = false ∧ s.save (.blank p) = .ok s' := by
  simp only [ensurePage] at h
  split at h
  next hp => exact .inl ⟨hp, (Except.ok.inj h).symm⟩
  next hp => exact .inr ⟨by simpa using hp, h⟩

theorem document?_ensurePage (h : s.ensurePage p = .ok s') (hq : q ≠ p) :
    s'.documents.get? q = s.documents.get? q := by
  obtain ⟨_, rfl⟩ | ⟨_, hs⟩ := ensurePage_eq_ok h
  · rfl
  · rw [document?_save hs, Document.reference_blank, if_neg hq]

theorem filesOf_ensurePage (h : s.ensurePage p = .ok s') (q : Page) :
    s'.filesOf q = s.filesOf q := by
  obtain ⟨_, rfl⟩ | ⟨_, hs⟩ := ensurePage_eq_ok h
  · rfl
  · exact filesOf_save hs q

theorem hasPage_ensurePage (h : s.ensurePage p = .ok s') : s'.hasPage p = true := by
  obtain ⟨hp, rfl⟩ | ⟨_, hs⟩ := ensurePage_eq_ok h
  · exact hp
  · rw [hasPage_eq, document?_save hs, Document.reference_blank, if_pos rfl]
    rfl

/-! ## Deleting and renaming -/

theorem delete_eq_ok (h : s.delete p = .ok s') :
    s.hasPage p = true ∧
      s' = { s with documents := s.documents.erase p, attachments := s.attachments.erase p } := by
  simp only [delete] at h
  split at h
  next hp => exact ⟨hp, (Except.ok.inj h).symm⟩
  · cases h

theorem document?_delete (h : s.delete p = .ok s') (q : Page) :
    s'.documents.get? q = if q = p then none else s.documents.get? q := by
  obtain ⟨_, rfl⟩ := delete_eq_ok h
  simp only [SortedMap.get?_erase, Std.LawfulEqCmp.compare_eq_iff_eq]

theorem filesOf_delete (h : s.delete p = .ok s') (q : Page) :
    s'.filesOf q = if q = p then .empty else s.filesOf q := by
  obtain ⟨_, rfl⟩ := delete_eq_ok h
  simp only [filesOf, SortedMap.get?_erase, Std.LawfulEqCmp.compare_eq_iff_eq]
  split <;> rfl

theorem rename_eq_ok (h : s.rename p q = .ok s') :
    ∃ space d, q.space = some space ∧ s.documents.get? p = some d ∧
      s' = { s.registerSpace space with
        documents := (s.documents.erase p).insert q
          { d with reference := q, updatedAt := s.clock + 1 }
        attachments := moveFiles s.attachments p q
        clock := s.clock + 1 } := by
  simp only [rename] at h
  split at h
  · cases h
  · cases h
  next space d hs hd => exact ⟨space, d, Page.requireSpace_eq_ok.1 hs, hd, (Except.ok.inj h).symm⟩

theorem hasPage_of_rename (h : s.rename p q = .ok s') : s.hasPage p = true := by
  obtain ⟨_, d, _, hd, _⟩ := rename_eq_ok h
  rw [hasPage_eq, hd]
  rfl

theorem document?_rename (h : s.rename p q = .ok s') (r : Page) :
    s'.documents.get? r =
      if r = q then
        (s.documents.get? p).map fun d => { d with reference := q, updatedAt := s.clock + 1 }
      else if r = p then none else s.documents.get? r := by
  obtain ⟨_, d, _, hd, rfl⟩ := rename_eq_ok h
  simp only [SortedMap.get?_insert, SortedMap.get?_erase, Std.LawfulEqCmp.compare_eq_iff_eq, hd,
    Option.map_some]

theorem hasPage_rename (h : s.rename p q = .ok s') : s'.hasPage q = true := by
  have hp := hasPage_of_rename h
  rw [hasPage_eq] at hp ⊢
  rw [document?_rename h, if_pos rfl, Option.isSome_map, hp]

/-- Other pages than the two of a rename are stored afterwards if they were before. -/
theorem hasPage_rename_of_ne (h : s.rename p q = .ok s') {r : Page} (hp : r ≠ p) (hq : r ≠ q) :
    s'.hasPage r = s.hasPage r :=
  hasPage_congr (by rw [document?_rename h, if_neg hq, if_neg hp])

theorem hasPage_rename_source (h : s.rename p q = .ok s') (hne : p ≠ q) :
    s'.hasPage p = false := by
  rw [hasPage_eq, document?_rename h, if_neg hne, if_pos rfl]
  rfl

/-- Outside the two pages of a rename no files move. -/
theorem filesOf_rename_of_ne (h : s.rename p q = .ok s') {r : Page} (hp : r ≠ p) (hq : r ≠ q) :
    s'.filesOf r = s.filesOf r := by
  obtain ⟨_, _, _, _, rfl⟩ := rename_eq_ok h
  simp only [filesOf, moveFiles]
  split <;> simp only [SortedMap.get?_insert, SortedMap.get?_erase,
    Std.LawfulEqCmp.compare_eq_iff_eq, if_neg hp, if_neg hq]

theorem get?_moveFiles (files : SortedMap Page (SortedMap String Bytes)) (p q r : Page) :
    (moveFiles files p q).get? r =
      if r = q then if p = q then none else files.get? p
      else if r = p then none else files.get? r := by
  have herase : (files.erase q).get? p = if p = q then none else files.get? p := by
    simp only [SortedMap.get?_erase, Std.LawfulEqCmp.compare_eq_iff_eq]
  simp only [moveFiles]
  split
  next moved hmoved =>
    rw [herase] at hmoved
    simp only [SortedMap.get?_insert, SortedMap.get?_erase, Std.LawfulEqCmp.compare_eq_iff_eq]
    grind
  next hnone =>
    rw [herase] at hnone
    simp only [SortedMap.get?_erase, Std.LawfulEqCmp.compare_eq_iff_eq]
    grind

/-- The destination of a rename holds the files of the page and no others. -/
theorem filesOf_rename (h : s.rename p q = .ok s') (hne : p ≠ q) : s'.filesOf q = s.filesOf p := by
  obtain ⟨_, _, _, _, rfl⟩ := rename_eq_ok h
  simp only [filesOf, get?_moveFiles, if_pos, if_neg hne]

theorem hasSpace_rename (h : s.rename p q = .ok s') {space : Space} :
    s'.hasSpace space = true ↔
      (∃ own, q.space = some own ∧ space ∈ own.lineage) ∨ s.hasSpace space = true := by
  obtain ⟨own, _, hown, _, rfl⟩ := rename_eq_ok h
  simp only [hown, Option.some.injEq, exists_eq_left']
  exact hasSpace_registerSpace

/-! ## Files -/

@[simp] theorem documents_putFile (s : Store) (a : Attachment) (data : Bytes) :
    (s.putFile a data).documents = s.documents := rfl

theorem filesOf_putFile {data : Bytes} (q : Page) :
    (s.putFile a data).filesOf q =
      if q = a.page then (s.filesOf a.page).insert a.file data else s.filesOf q := by
  simp only [filesOf, putFile, SortedMap.get?_insert, Std.LawfulEqCmp.compare_eq_iff_eq]
  split <;> rfl

theorem filesOf_takeFile (q : Page) :
    (s.takeFile a).filesOf q =
      if q = a.page then (s.filesOf a.page).erase a.file else s.filesOf q := by
  simp only [filesOf, takeFile, SortedMap.get?_insert, Std.LawfulEqCmp.compare_eq_iff_eq]
  split <;> rfl

/-- The content of a file is known from the files of its page. -/
theorem content_congr (h : s'.filesOf a.page = s.filesOf a.page) : s'.content a = s.content a := by
  simp only [content, h]

theorem content_takeFile (s : Store) (a b : Attachment) :
    (s.takeFile a).content b = if b = a then .error (.notFound a.text) else s.content b := by
  by_cases hpage : b.page = a.page
  · simp only [content, filesOf_takeFile, hpage, if_pos, SortedMap.get?_erase,
      Std.LawfulEqCmp.compare_eq_iff_eq]
    grind [Attachment]
  · have hne : b ≠ a := fun h => hpage (congrArg Attachment.page h)
    rw [if_neg hne]
    exact content_congr (by rw [filesOf_takeFile, if_neg hpage])

theorem content_putFile (s : Store) (a b : Attachment) (data : Bytes) :
    (s.putFile a data).content b = if b = a then .ok data else s.content b := by
  by_cases hpage : b.page = a.page
  · simp only [content, filesOf_putFile, hpage, if_pos, SortedMap.get?_insert,
      Std.LawfulEqCmp.compare_eq_iff_eq]
    grind [Attachment]
  · have hne : b ≠ a := fun h => hpage (congrArg Attachment.page h)
    rw [if_neg hne]
    exact content_congr (by rw [filesOf_putFile, if_neg hpage])

theorem attach_eq_ok {data : Bytes} (h : s.attach a data = .ok s') :
    ∃ made, s.ensurePage a.page = .ok made ∧ s' = made.putFile a data := by
  simp only [attach] at h
  cases he : s.ensurePage a.page with
  | error e => simp [he, Except.map] at h
  | ok made => exact ⟨made, rfl, by simpa [he, Except.map] using h.symm⟩

/-- Attaching a file files a blank document where the page is not stored, and no other one. -/
theorem document?_attach {data : Bytes} (h : s.attach a data = .ok s') (p : Page) :
    s'.documents.get? p =
      if p = a.page ∧ s.hasPage a.page = false then
        some ((Document.blank a.page).savedAt (s.clock + 1))
      else s.documents.get? p := by
  obtain ⟨made, hmade, rfl⟩ := attach_eq_ok h
  rw [documents_putFile]
  obtain ⟨hstored, rfl⟩ | ⟨hnew, hsave⟩ := ensurePage_eq_ok hmade
  · rw [hstored, if_neg fun hp => Bool.false_ne_true hp.2.symm]
  · rw [document?_save hsave, Document.reference_blank]
    simp only [hnew, and_true]

theorem attach_error {data : Bytes} {e : StorageError} (h : s.attach a data = .error e) :
    a.page.space = none := by
  simp only [attach, ensurePage] at h
  split at h
  · simp [Except.map] at h
  · cases hs : s.save (.blank a.page) with
    | ok made => simp [hs, Except.map] at h
    | error e => exact save_error (d := .blank a.page) hs

theorem detach_eq_ok (h : s.detach a = .ok s') : s' = s.takeFile a := by
  simp only [detach] at h
  split at h
  · exact (Except.ok.inj h).symm
  · cases h

/-- Moving a file ends with nothing done, with the file moved, or, where the destination has no space,
with the file lost. -/
theorem move_cases (s : Store) (a b : Attachment) :
    (∃ e, s.content a = .error e ∧ s.move a b = (.error e, s)) ∨
      ∃ data, s.content a = .ok data ∧
        ((∃ s', (s.takeFile a).attach b data = .ok s' ∧ s.move a b = (.ok (), s')) ∨
          ∃ e, b.page.space = none ∧ s.move a b = (.error e, s.takeFile a)) := by
  simp only [move]
  cases s.content a with
  | error e => exact .inl ⟨e, rfl, rfl⟩
  | ok data =>
    refine .inr ⟨data, rfl, ?_⟩
    cases hb : (s.takeFile a).attach b data with
    | ok s' => exact .inl ⟨s', rfl, by simp [hb]⟩
    | error e => exact .inr ⟨e, attach_error hb, by simp [hb]⟩

/-! ## Answers -/

/-- What holds of the store and of every store that the write could make holds afterwards. -/
theorem settle_invariant (I : Store → Prop) {answer : Except StorageError Store} (h : I s)
    (hok : ∀ s', answer = .ok s' → I s') : I (s.settle answer).2 := by
  cases answer with
  | ok s' => exact hok s' rfl
  | error e => exact h

theorem settle_eq_ok {answer : Except StorageError Store} (h : s.settle answer = (.ok (), s')) :
    answer = .ok s' := by
  cases answer with
  | ok made => rw [(Prod.mk.inj h).2]
  | error e => cases h

theorem settle_error {answer : Except StorageError Store} {e : StorageError}
    (h : (s.settle answer).1 = .error e) : (s.settle answer).2 = s := by
  cases answer with
  | ok made => cases h
  | error e => rfl

/-- What saving, deleting and renaming keep and what takes no notice of files is kept by every write,
whether it succeeds or not. -/
theorem write_keeps (I : Store → Prop)
    (hsave : ∀ {s s' : Store} {d : Document}, I s → s.save d = .ok s' → I s')
    (hdelete : ∀ {s s' : Store} {p : Page}, I s → s.delete p = .ok s' → I s')
    (hrename : ∀ {s s' : Store} {p q : Page}, I s → s.rename p q = .ok s' → I s')
    (hfiles : ∀ {s : Store} files, I s → I { s with attachments := files })
    (h : I s) (w : Write) : I (s.write w).2 := by
  have hattach : ∀ {s s' : Store} {a : Attachment} {data : Bytes}, I s → s.attach a data = .ok s' →
      I s' := by
    intro s s' a data h hs
    obtain ⟨made, hm, rfl⟩ := attach_eq_ok hs
    obtain ⟨_, rfl⟩ | ⟨_, hs⟩ := ensurePage_eq_ok hm
    · exact hfiles _ h
    · exact hfiles _ (hsave h hs)
  cases w with
  | save d => exact settle_invariant I h fun _ hs => hsave h hs
  | delete p => exact settle_invariant I h fun _ hs => hdelete h hs
  | rename p q => exact settle_invariant I h fun _ hs => hrename h hs
  | attach a data => exact settle_invariant I h fun _ hs => hattach h hs
  | detach a => exact settle_invariant I h fun _ hs => detach_eq_ok hs ▸ hfiles _ h
  | move a b =>
    -- A move that fails may have taken the file off its page.
    change I (s.move a b).2
    obtain ⟨e, _, he⟩ | ⟨data, _, ⟨s', hs, he⟩ | ⟨e, _, he⟩⟩ := move_cases s a b
    · exact he ▸ h
    · exact he ▸ hattach (hfiles _ h) hs
    · exact he ▸ hfiles _ h

end Store

end WikiMount
