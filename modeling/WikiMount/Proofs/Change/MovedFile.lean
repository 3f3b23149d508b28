import WikiMount.Proofs.Change.Requests
import WikiMount.Proofs.Change.Runs
import WikiMount.Proofs.Storage.Queries

/-!
# What moving a file does to the store

A file that is renamed is taken off its page and attached to its destination, and in between the page of
the destination is created if it is not stored. The two pages may be one, and the destination may hold a
file already. As the two files differ, attaching the one does not bring back what was taken off.
-/

namespace WikiMount

namespace Store

/-- The file `a` has become the file `b`. -/
structure FileMoved (a b : Attachment) (s s' : Store) : Prop where
  arrived : ∃ data, s.content a = .ok data ∧ s'.content b = .ok data
  gone : a.file ∉ (s'.filesOf a.page).keys
  other_files : ∀ c, c ≠ a → c ≠ b → s'.content c = s.content c ∧
    (c.file ∈ (s'.filesOf c.page).keys ↔ c.file ∈ (s.filesOf c.page).keys)
  /-- The page that gets the file is created empty if it is not stored. -/
  created : s.hasPage b.page = false → ∃ n, s'.documents.get? b.page = some
    { Document.blank b.page with content := "", createdAt := n, updatedAt := n, isNew := false }
  other_documents : ∀ p, p ≠ b.page ∨ s.hasPage b.page = true →
    s'.documents.get? p = s.documents.get? p

variable {s s' : Store} {a b c : Attachment} {p : Page} {data : Bytes}

/-- What a file contains once another one has been moved. -/
theorem content_moved (h : (s.takeFile a).attach b data = .ok s') (c : Attachment) :
    s'.content c =
      if c = b then .ok data else if c = a then .error (.notFound a.text) else s.content c := by
  obtain ⟨made, hmade, rfl⟩ := attach_eq_ok h
  rw [content_putFile, content_congr (filesOf_ensurePage hmade c.page), content_takeFile]

theorem fileMoved_move (hne : a ≠ b) (h : s.write (.move a b) = (.ok (), s')) :
    FileMoved a b s s' := by
  change s.move a b = (.ok (), s') at h
  obtain ⟨e, _, he⟩ | ⟨data, hdata, ⟨after, hattach, hafter⟩ | ⟨e, _, he⟩⟩ := s.move_cases a b
  · cases he.symm.trans h
  · obtain rfl : after = s' := congrArg Prod.snd (hafter.symm.trans h)
    have hcontent := content_moved hattach
    have hother : ∀ c, c ≠ a → c ≠ b → after.content c = s.content c := fun c ha hb => by
      rw [hcontent, if_neg hb, if_neg ha]
    have hdocument := document?_attach hattach
    constructor
    · exact ⟨data, hdata, by rw [hcontent, if_pos rfl]⟩
    · rw [mem_files_iff]
      rintro ⟨found, hfound⟩
      rw [hcontent, if_neg hne, if_pos rfl] at hfound
      cases hfound
    · intro c ha hb
      refine ⟨hother c ha hb, ?_⟩
      rw [mem_files_iff, mem_files_iff, hother c ha hb]
    · exact fun hnew => ⟨s.clock + 1, by rw [hdocument, if_pos ⟨rfl, hnew⟩]; rfl⟩
    · rintro p (hp | hstored)
      · rw [hdocument, if_neg fun hcreated => hp hcreated.1]
        rfl
      · have hkept : ¬(p = b.page ∧ (s.takeFile a).hasPage b.page = false) := fun hcreated =>
          Bool.false_ne_true (hcreated.2.symm.trans hstored)
        rw [hdocument, if_neg hkept]
        rfl
  · cases he.symm.trans h

end Store

namespace Service

/-- A rename of a file that succeeds moves that file and no other one, and changes no document except that
the page of the destination is created empty if it is not stored. -/
theorem handle_moved_file {s : Service} {caller : Caller} {request : Request} {a b : Attachment}
    (hk : s.renamed? caller request = some (.attachment a, .attachment b))
    (hok : (s.handle caller request).1 = .ok .done) :
    Store.FileMoved a b s.repository.store (s.handle caller request).2.repository.store := by
  obtain ⟨ctx, t, source, destination, plan, hrepo, _, hsource, hdestination, hmoves, hdone,
    hafter⟩ := renamed_plan hk hok
  rw [hafter, ← hrepo]
  cases hmoves with
  | page hpage => cases hsource.symm.trans hpage
  | space hspace => cases hsource.symm.trans hspace
  | attachment ha hb hne =>
    cases hsource.symm.trans ha
    cases hdestination.symm.trans hb
    exact Store.fileMoved_move hne (Repository.perform_stored hdone).1

/-- A file is moved over another one of its page, and then to a page that is not stored. -/
theorem handle_moved_file_twice :
    let page := Page.inSpace "P" (.topLevel "Main")
    let a : Attachment := ⟨page, "a.txt"⟩
    let b : Attachment := ⟨page, "b.txt"⟩
    let c : Attachment := ⟨.inSpace "Q" (.topLevel "Main"), "c.txt"⟩
    let store := ((Store.empty.write (.attach a ⟨#[1]⟩)).2.write (.attach b ⟨#[2]⟩)).2
    let s := Service.new (.ofStore store) .standard
    let caller : Caller := ⟨.anonymous, .allowAll⟩
    let within := Request.rename "/spaces/Main/P/a.txt" "/spaces/Main/P/b.txt"
    let away := Request.rename "/spaces/Main/P/b.txt" "/spaces/Main/P/Q/c.txt"
    let next := (s.handle caller within).2
    store.Reachable ∧ s.renamed? caller within = some (.attachment a, .attachment b) ∧
      (s.handle caller within).1 = .ok .done ∧
      Store.FileMoved a b store next.repository.store ∧
      next.renamed? caller away = some (.attachment b, .attachment c) ∧
      (next.handle caller away).1 = .ok .done ∧ next.repository.store.hasPage c.page = false ∧
      Store.FileMoved b c next.repository.store (next.handle caller away).2.repository.store := by
  intro page a b c store s caller within away next
  have hk : s.renamed? caller within = some (.attachment a, .attachment b) := by decide
  have hok : (s.handle caller within).1 = .ok .done := by
    dsimp only [page, a, b, store, s, caller, within]
    rfl
  have hk' : next.renamed? caller away = some (.attachment b, .attachment c) := by decide +kernel
  have hok' : (next.handle caller away).1 = .ok .done := by
    dsimp only [page, a, b, c, store, s, caller, within, away, next]
    rfl
  have hnew : next.repository.store.hasPage c.page = false := by decide +kernel
  have hmoved := handle_moved_file hk hok
  have hmoved' := handle_moved_file hk' hok'
  exact ⟨(Store.Reachable.empty.write _).write _, hk, hok, hmoved, hk', hok', hnew, hmoved'⟩

end Service

end WikiMount
