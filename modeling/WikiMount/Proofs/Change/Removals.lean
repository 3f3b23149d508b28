import WikiMount.Proofs.Change.BatchRuns
import WikiMount.Proofs.Session.ScratchFiles
import WikiMount.Proofs.Storage.Upkeep
import WikiMount.Proofs.Text.LetterGroups

/-!
# What a removal takes away

Removing a node takes pages away, one file of a page, one scratch file, or nothing. Which pages go is known
from the kind of the node: a page goes alone, with a letter group the pages that it holds, and with the
directory of a space the pages directly in it. The list of pages is made before the first of them is
deleted, and deleting one leaves the others as they are, so at the end just the pages of the list have
gone, each with its files.
-/

namespace WikiMount

namespace Store

/-- Some pages have gone with their files, and nothing else has changed. -/
structure Without (taken : Page → Prop) (s s' : Store) : Prop where
  gone : ∀ p, taken p → s'.documents.get? p = none ∧ s'.filesOf p = .empty
  kept : ∀ p, ¬taken p →
    s'.documents.get? p = s.documents.get? p ∧ s'.filesOf p = s.filesOf p
  spaces : s'.spaces = s.spaces
  clock : s'.clock = s.clock

/-- One file has gone from its page, and nothing else has changed. -/
structure FileTaken (s : Store) (a : Attachment) (s' : Store) : Prop where
  held : ∃ data, (s.filesOf a.page).get? a.file = some data
  files : ∀ page file, (s'.filesOf page).get? file =
    if page = a.page ∧ file = a.file then none else (s.filesOf page).get? file
  documents : s'.documents = s.documents
  spaces : s'.spaces = s.spaces
  clock : s'.clock = s.clock

variable {s s₁ s' : Store} {taken other : Page → Prop} {p : Page} {pages : List Page} {a : Attachment}

namespace Without

theorem refl (s : Store) : Without (fun _ => False) s s where
  gone _ h := h.elim
  kept _ _ := ⟨rfl, rfl⟩
  spaces := rfl
  clock := rfl

theorem of_delete (h : s.delete p = .ok s') : Without (· = p) s s' := by
  have hdocument := document?_delete h
  have hfiles := filesOf_delete h
  obtain ⟨_, rfl⟩ := delete_eq_ok h
  refine ⟨fun q hq => ?_, fun q hq => ?_, rfl, rfl⟩
  · exact ⟨(hdocument q).trans (if_pos hq), (hfiles q).trans (if_pos hq)⟩
  · exact ⟨(hdocument q).trans (if_neg hq), (hfiles q).trans (if_neg hq)⟩

theorem trans (h : Without taken s s₁) (h' : Without other s₁ s') :
    Without (fun p => taken p ∨ other p) s s' where
  gone p hp := by
    by_cases hother : other p
    · exact h'.gone p hother
    · obtain ⟨hdocument, hfiles⟩ := h.gone p (hp.resolve_right hother)
      obtain ⟨hdocument', hfiles'⟩ := h'.kept p hother
      exact ⟨hdocument'.trans hdocument, hfiles'.trans hfiles⟩
  kept p hp := by
    obtain ⟨hgone, hother⟩ := not_or.1 hp
    obtain ⟨hdocument, hfiles⟩ := h.kept p hgone
    obtain ⟨hdocument', hfiles'⟩ := h'.kept p hother
    exact ⟨hdocument'.trans hdocument, hfiles'.trans hfiles⟩
  spaces := h'.spaces.trans h.spaces
  clock := h'.clock.trans h.clock

/-- Of a page that is not stored it does not matter whether it goes. -/
theorem of_stored (hu : s.Upkept) (h : Without taken s s')
    (hsame : ∀ p, s.hasPage p = true → (taken p ↔ other p)) : Without other s s' := by
  have hunstored : ∀ p, s.hasPage p = false →
      s.documents.get? p = none ∧ s.filesOf p = .empty := by
    intro p hp
    have hnone : s.attachments.get? p = none := by
      cases hfiles : s.attachments.get? p with
      | none => rfl
      | some files => cases hp.symm.trans (hu.held p files hfiles)
    rw [hasPage_eq, Option.isSome_eq_false_iff, Option.isNone_iff_eq_none] at hp
    exact ⟨hp, by rw [filesOf, hnone]; rfl⟩
  refine ⟨fun p hother => ?_, fun p hother => ?_, h.spaces, h.clock⟩
  · by_cases hgone : taken p
    · exact h.gone p hgone
    · have hp : s.hasPage p = false := Bool.eq_false_iff.2 fun hp => hgone ((hsame p hp).2 hother)
      obtain ⟨hdocument, hfiles⟩ := h.kept p hgone
      exact ⟨hdocument.trans (hunstored p hp).1, hfiles.trans (hunstored p hp).2⟩
  · by_cases hgone : taken p
    · have hp : s.hasPage p = false := Bool.eq_false_iff.2 fun hp => hother ((hsame p hp).1 hgone)
      obtain ⟨hdocument, hfiles⟩ := h.gone p hgone
      exact ⟨hdocument.trans (hunstored p hp).1.symm, hfiles.trans (hunstored p hp).2.symm⟩
    · exact h.kept p hgone

/-- Deleting pages one by one takes all of them away and no others. -/
theorem of_applied (h : s.appliedAll (pages.map fun p => .write (.delete p)) = .ok s') :
    Without (· ∈ pages) s s' := by
  induction pages generalizing s with
  | nil =>
    obtain rfl := Except.ok.inj h
    simpa using Without.refl s
  | cons p rest ih =>
    obtain ⟨s₁, hfirst, hrest⟩ := appliedAll_cons_eq_ok.1 h
    have hdelete : s.delete p = .ok s₁ := (applied_delete s p).symm.trans hfirst
    simpa only [List.mem_cons] using (Without.of_delete hdelete).trans (ih hrest)

end Without

theorem fileTaken_detach (h : s.detach a = .ok s') : s.FileTaken a s' := by
  obtain rfl := detach_eq_ok h
  have hheld : ∃ data, (s.filesOf a.page).get? a.file = some data := by
    simp only [detach, content] at h
    split at h
    next data hcontent =>
      split at hcontent
      next found hfound => exact ⟨found, hfound⟩
      · cases hcontent
    · cases h
  refine ⟨hheld, fun page file => ?_, rfl, rfl, rfl⟩
  rw [filesOf_takeFile]
  by_cases hpage : page = a.page
  · simp only [hpage, if_pos, true_and, SortedMap.get?_erase, Std.LawfulEqCmp.compare_eq_iff_eq]
  · simp only [hpage, if_false, false_and]

end Store

/-- What removing a node changes of a workspace, by the kind of the node. -/
inductive Workspace.Removed (w : Workspace) (path : String) (w' : Workspace) : NodeKind → Prop
  | page {p : Page} (hscratch : w'.scratch = w.scratch)
      (h : Store.Without (· = p) w.repository.store w'.repository.store) : Removed w path w' (.page p)
  | group {space : Space} {group : LetterGroup} (hscratch : w'.scratch = w.scratch)
      (h : Store.Without (fun p => p.isIn space = true ∧ group.holds p.name = true)
        w.repository.store w'.repository.store) :
      Removed w path w' (.pageGroup space group)
  | space {name : String} (hscratch : w'.scratch = w.scratch)
      (h : Store.Without (fun p => p.isIn (.topLevel name) = true)
        w.repository.store w'.repository.store) :
      Removed w path w' (.space (.topLevel name) .pages)
  | attachment {a : Attachment} (hscratch : w'.scratch = w.scratch)
      (h : w.repository.store.FileTaken a w'.repository.store) : Removed w path w' (.attachment a)
  | wikiFile {p : Page} {format : FileFormat} (h : w' = w) : Removed w path w' (.wikiFile p format)
  | scratch {name : String} {files files' : Scratch} (hrepository : w'.repository = w.repository)
      (hfiles : w.scratch = some files) (hfiles' : w'.scratch = some files')
      (hheld : files.contains path = true)
      (h : ∀ file, files'.read? file = if file = path then none else files.read? file) :
      Removed w path w' (.scratch name)

namespace Context

variable {ctx : Context} {t : Tree} {id dir : Nat} {path : String} {plan : Plan}

/-- A space that is removed from the view of pages is at the top. -/
theorem topLevel_of_lookup {space : Space} (hl : ctx.lookup path = .ok (id, t))
    (ht : t.AnswersFor dir id) (hdir : t.kind dir = .baseView .pages)
    (hk : t.kind id = .space space .pages) : ∃ name, space = .topLevel name := by
  obtain ⟨parent, hp, _⟩ := ht.directory
  have hdecodes := lookup_decodes hl hp
  rw [hk] at hdecodes
  generalize habove : t.kind parent = above at hdecodes
  cases hdecodes with
  | view _ hview => obtain ⟨_, h⟩ | h := decodeBaseView_ok hview <;> cases h
  | topLevel => exact ⟨_, rfl⟩
  | nested =>
    obtain rfl := ht.eq_parent hp (by rw [habove]; rfl)
    cases hdir.symm.trans habove

/-- A page is deleted if it is stored; either way it has gone afterwards. -/
theorem without_page {page : Page} (hs : ctx.repository.store.Reachable)
    (hok : ((if ctx.repository.hasPage page then .write (.delete page) else .nothing : Plan).execute
      ctx.toWorkspace).1 = .ok ()) :
    Store.Without (· = page) ctx.repository.store
      ((if ctx.repository.hasPage page then .write (.delete page) else .nothing : Plan).execute
        ctx.toWorkspace).2.repository.store := by
  split at hok
  next hstored =>
    rw [if_pos hstored]
    exact .of_delete (Store.settle_eq_ok (Repository.perform_stored hok).1)
  next hunstored =>
    rw [if_neg hunstored]
    refine (Store.Without.refl _).of_stored hs.upkept fun q hq => ⟨False.elim, ?_⟩
    rintro rfl
    exact hunstored hq

theorem without_pages {batch : Batch} {pages : List Page}
    (hok : ((Plan.batch batch (pages.map fun p => .write (.delete p))).execute
      ctx.toWorkspace).1 = .ok ()) :
    Store.Without (· ∈ pages) ctx.repository.store
      ((Plan.batch batch (pages.map fun p => .write (.delete p))).execute
        ctx.toWorkspace).2.repository.store :=
  .of_applied (Plan.appliedAll_of_batch (addressed_writes .delete fun _ => trivial) hok)

theorem Removes.removed (hs : ctx.repository.store.Reachable) (hl : ctx.lookup path = .ok (id, t))
    (hremovable : (t.kind id).capabilities.canRemove = true) (ht : t.AnswersFor dir id)
    (h : ctx.Removes t dir id plan) (hok : (plan.execute ctx.toWorkspace).1 = .ok ()) :
    ctx.toWorkspace.Removed (t.path id) (plan.execute ctx.toWorkspace).2 (t.kind id) := by
  cases h with
  | scratch hchild hfiles hheld =>
    rw [hchild]
    refine .scratch rfl hfiles (congrArg (Option.map _) hfiles) hheld fun file => ?_
    exact Scratch.read?_remove _ (t.path id) file
  | wikiFile _ hchild =>
    rw [hchild]
    exact .wikiFile rfl
  | attachment _ hchild =>
    rw [hchild]
    exact .attachment rfl (Store.fileTaken_detach (Store.settle_eq_ok (Repository.perform_stored hok).1))
  | below _ hchild =>
    rw [hchild]
    refine .page ?_ (without_page hs hok)
    split <;> rfl
  | inSpace _ hchild =>
    rw [hchild]
    refine .page ?_ (without_page hs hok)
    split <;> rfl
  | @group space own group pages hdir hchild hpages =>
    rw [ht.space_of_group hchild] at hdir
    obtain rfl : own = space := by simpa using hdir
    obtain rfl := Repository.eq_of_asked hpages
    rw [hchild]
    refine .group rfl ((without_pages hok).of_stored hs.upkept fun p hp => ?_)
    rw [LetterGroup.mem_pagesBeginning_key, and_iff_right hp]
  | @space space view pages hdir hchild hpages =>
    rw [hchild] at hremovable
    cases view with
    | attachments => cases hremovable
    | pages =>
      obtain ⟨name, rfl⟩ := topLevel_of_lookup hl ht hdir hchild
      obtain rfl := Repository.eq_of_asked hpages
      rw [hchild]
      refine .space rfl ((without_pages hok).of_stored hs.upkept fun p hp => ?_)
      rw [Store.mem_pagesIn, and_iff_right hp]

/-- A removal that succeeds has carried out a plan for the node at the path. -/
theorem delete_removed (hs : ctx.repository.store.Reachable) (hok : (ctx.delete path).1 = .ok ()) :
    ∃ id t, ctx.lookup path = .ok (id, t) ∧
      ctx.toWorkspace.Removed (t.path id) (ctx.delete path).2 (t.kind id) := by
  obtain ⟨plan, ⟨t, dir, id, hl, hremovable, ht, hremoves⟩, heq⟩ := (ctx.delete_carries path).eq_ok hok
  rw [heq] at hok ⊢
  exact ⟨id, t, hl, hremoves.removed hs hl hremovable ht hok⟩

end Context

namespace Service

variable {s : Service} {caller : Caller} {path : String}

/-- A removal that succeeds takes away what is at the path and nothing else: a page with its files if it
is stored, the pages that a letter group holds, the pages directly in a space, one file of a page, or one
scratch file of the caller. Removing a wiki file takes nothing away. Other documents and files, and the
spaces that are known, stay as they are, and so do the scratch files of other callers. -/
theorem handle_removed (hs : s.sessions.Sound) (hr : s.repository.store.Reachable)
    (hok : (s.handle caller (.delete path)).1 = .ok .done) :
    let s' := (s.handle caller (.delete path)).2
    (∃ id t, (s.context caller .delete).lookup path = .ok (id, t) ∧
      (s.context caller .delete).toWorkspace.Removed (t.path id)
        (s'.context caller .read).toWorkspace (t.kind id)) ∧
    ∀ n, n ≠ (s.sessions.getOrCreate caller.principal.name).1 →
      s'.sessions.storage n = s.sessions.storage n := by
  intro s'
  have hrun : s' = (s.run caller .delete fun ctx => ctx.delete path).2 := rfl
  have hdone : ((s.context caller .delete).delete path).1 = .ok () := respond_done hok
  refine ⟨?_, fun n hn => ?_⟩
  · rw [hrun, run_carried hs .read (Context.delete_carries _ path)]
    exact Context.delete_removed hr hdone
  · rw [hrun]
    exact run_storage hn

/-- Of three pages two begin with the letter of the group, in either case, and one of these is in another
space. Only the other one goes. -/
theorem handle_removed_letter_group :
    let gone := Page.inSpace "ab" (.topLevel "Main")
    let other := Page.inSpace "B" (.topLevel "Main")
    let elsewhere := Page.inSpace "A" (.topLevel "Other")
    let s := Service.new (.ofStore (.ofPages [gone, other, elsewhere])) .standard
    let caller : Caller := ⟨.anonymous, .allowAll⟩
    let s' := (s.handle caller (.delete "/spaces/Main/_a_")).2
    (s.handle caller (.delete "/spaces/Main/_a_")).1 = .ok .done ∧
      s'.repository.store.documents.get? gone = none ∧
      s'.repository.store.documents.get? other = s.repository.store.documents.get? other ∧
      s'.repository.store.documents.get? elsewhere = s.repository.store.documents.get? elsewhere := by
  intro gone other elsewhere s caller s'
  have hok : (s.handle caller (.delete "/spaces/Main/_a_")).1 = .ok .done := by
    dsimp only [s, caller, gone, other, elsewhere]
    rfl
  have hs : s.sessions.Sound := .ofConfig _
  have hr : s.repository.store.Reachable := Store.reachable_ofPages _
  obtain ⟨⟨id, t, hl, hremoved⟩, _⟩ := handle_removed hs hr hok
  let group : LetterGroup := ⟨"A", by decide, by decide⟩
  let t : Tree := ⟨#[.root, ⟨.baseView .pages, "spaces", some 0, none⟩,
    ⟨.space (.topLevel "Main") .pages, "Main", some 1, none⟩,
    ⟨.pageGroup (.topLevel "Main") group, "_a_", some 2, none⟩]⟩
  have hl' : (s.context caller .delete).lookup "/spaces/Main/_a_" = .ok (3, t) := by
    dsimp only [s, caller, t, group, gone, other, elsewhere]
    rfl
  obtain ⟨rfl, rfl⟩ := Prod.mk.inj (Except.ok.inj (hl'.symm.trans hl))
  cases hremoved with
  | group _ h =>
    exact ⟨hok, (h.gone gone (by decide)).1, (h.kept other (by decide)).1,
      (h.kept elsewhere (by decide)).1⟩

end Service

end WikiMount
