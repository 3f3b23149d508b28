import WikiMount.Proofs.Change.SpaceCarried
import WikiMount.Proofs.Node.Offering

/-!
# Writing to a healthy repository

A write fails for one of three reasons: it names a page that has no space, it is to take away or to move
something that is not there, or the repository is at fault. The last reason falls away while nothing is
wrong with the repository, and then a write is answered as the store answers it. A batch goes through all
of its items if the store takes each of them before the first is applied, provided that none of them
stands in the way of a later one.
-/

namespace WikiMount

/-- The request could not be honoured. -/
def ViewError.IsBadRequest : ViewError → Prop
  | .badRequest _ => True
  | _ => False

theorem ViewError.IsBadRequest.isRejection {e : ViewError} (h : e.IsBadRequest) : e.IsRejection := by
  cases e with
  | badRequest _ => trivial
  | _ => cases h

theorem ErrsOnly.rejections {α : Type} {answer : Except ViewError α}
    (h : ErrsOnly ViewError.IsBadRequest answer) : ErrsOnly ViewError.IsRejection answer :=
  h.mono fun _ => ViewError.IsBadRequest.isRejection

/-- A reference does not address anything that could be stored. -/
def StorageError.IsReference : StorageError → Prop
  | .invalidReference _ => True
  | _ => False

theorem StorageError.IsReference.isBadRequest {e : StorageError} (h : e.IsReference) :
    (ViewError.ofStorage e).IsBadRequest := by
  cases e with
  | invalidReference _ => trivial
  | _ => cases h

theorem ErrsOnly.viewed {α : Type} {answer : Except StorageError α}
    (h : ErrsOnly StorageError.IsReference answer) :
    ErrsOnly ViewError.IsBadRequest (WikiMount.viewed answer) := by
  cases answer with
  | ok a => exact errsOnly_ok a
  | error e => exact errsOnly_error.2 (errsOnly_error.1 h).isBadRequest

/-! ## Single writes -/

/-- What a write takes away or moves is there. -/
def Write.Grounded (s : Store) : Write → Prop
  | .save _ | .attach _ _ => True
  | .delete page | .rename page _ => s.hasPage page = true
  | .detach a | .move a _ => a.file ∈ (s.filesOf a.page).keys

namespace Store

variable {s s' : Store}

theorem errsOnly_document (s : Store) (page : Page) :
    ErrsOnly StorageError.IsReference (s.document page) := by
  unfold document
  split
  · exact errsOnly_ok _
  · exact errsOnly_error.2 trivial

theorem errsOnly_save (s : Store) (d : Document) : ErrsOnly StorageError.IsReference (s.save d) := by
  unfold save
  split
  · exact errsOnly_error.2 trivial
  · exact errsOnly_ok _

theorem errsOnly_attach (s : Store) (a : Attachment) (data : Bytes) :
    ErrsOnly StorageError.IsReference (s.attach a data) := by
  unfold attach ensurePage
  refine errsOnly_map.2 ?_
  split
  · exact errsOnly_ok _
  · exact s.errsOnly_save _

theorem errsOnly_rename {page destination : Page} (h : s.hasPage page = true) :
    ErrsOnly StorageError.IsReference (s.rename page destination) := by
  obtain ⟨d, hd⟩ := Option.isSome_iff_exists.1 h
  unfold rename
  split
  · exact errsOnly_error.2 trivial
  next hnone => cases hd.symm.trans hnone
  · exact errsOnly_ok _

theorem errsOnly_settle {answer : Except StorageError Store} {sort : StorageError → Prop}
    (h : ErrsOnly sort answer) : ErrsOnly sort (s.settle answer).1 := by
  cases answer with
  | ok s' => exact errsOnly_ok ()
  | error e => exact errsOnly_error.2 (errsOnly_error.1 h)

/-- Where what a write is about is there, only a reference without a space can stop it. -/
theorem errsOnly_write {w : Write} (hw : w.Grounded s) :
    ErrsOnly StorageError.IsReference (s.write w).1 := by
  cases w with
  | save d => exact errsOnly_settle (s.errsOnly_save d)
  | delete page =>
    have hstored : s.hasPage page = true := hw
    refine errsOnly_settle ?_
    rw [delete, if_pos hstored]
    exact errsOnly_ok _
  | rename page destination => exact errsOnly_settle (errsOnly_rename hw)
  | attach a data => exact errsOnly_settle (s.errsOnly_attach a data)
  | detach a =>
    obtain ⟨data, hdata⟩ := exists_content hw
    refine errsOnly_settle ?_
    rw [detach, hdata]
    exact errsOnly_ok _
  | move a destination =>
    obtain ⟨data, hdata⟩ := exists_content hw
    have hattach := (s.takeFile a).errsOnly_attach destination data
    simp only [write, move, hdata]
    split
    · exact errsOnly_ok ()
    next e he => exact errsOnly_error.2 (hattach e he)

/-! ## Batches -/

/-- The store can apply an item. -/
def Takes (s : Store) (item : BatchItem) : Prop := ∃ s', s.applied item = .ok s'

end Store

/-- Wherever the first item has been applied, the second can be if it could be before. -/
def BatchItem.Spares (item other : BatchItem) : Prop :=
  ∀ s s' : Store, s.Takes other → s.applied item = .ok s' → s'.Takes other

namespace Store

variable {s s' : Store} {page destination : Page} {F T : Space}

/-- A batch goes through if the store can take its items and each of them spares the later ones. -/
theorem exists_appliedAll {items : List BatchItem} (htaken : ∀ item ∈ items, s.Takes item)
    (hspares : items.Pairwise BatchItem.Spares) : ∃ s', s.appliedAll items = .ok s' := by
  induction items generalizing s with
  | nil => exact ⟨s, rfl⟩
  | cons item rest ih =>
    obtain ⟨hfirst, hrest⟩ := List.pairwise_cons.1 hspares
    obtain ⟨s₁, hs₁⟩ := htaken item (.head rest)
    obtain ⟨s', hs'⟩ := ih
      (fun other ho => hfirst other ho s s₁ (htaken other (.tail item ho)) hs₁) hrest
    exact ⟨s', appliedAll_cons_eq_ok.2 ⟨s₁, hs₁, hs'⟩⟩

theorem takes_delete : s.Takes (.write (.delete page)) ↔ s.hasPage page = true := by
  simp only [Takes, applied_delete]
  constructor
  · rintro ⟨s', h⟩
    exact (delete_eq_ok h).1
  · intro h
    exact ⟨_, if_pos h⟩

theorem takes_rename : s.Takes (.write (.rename page destination)) ↔
    s.hasPage page = true ∧ destination.space.isSome = true := by
  simp only [Takes, applied_rename]
  constructor
  · rintro ⟨s', h⟩
    obtain ⟨space, _, hspace, _⟩ := rename_eq_ok h
    exact ⟨hasPage_of_rename h, by rw [hspace]; rfl⟩
  · rintro ⟨hpage, hspace⟩
    obtain ⟨d, hd⟩ := Option.isSome_iff_exists.1 hpage
    obtain ⟨space, hspace⟩ := Option.isSome_iff_exists.1 hspace
    simp only [rename, Page.requireSpace_eq_ok.2 hspace, hd]
    exact ⟨_, rfl⟩

theorem takes_reparent {child parent : Page} : s.Takes (.reparent child parent) ↔
    ∃ d, s.document child = .ok d ∧ d.reference.space.isSome = true := by
  simp only [Takes, applied]
  constructor
  · rintro ⟨s', h⟩
    split at h
    · cases h
    next d hd =>
      obtain ⟨space, hspace, _⟩ := save_eq_ok h
      exact ⟨d, hd, by rw [hspace]; rfl⟩
  · rintro ⟨d, hd, hspace⟩
    obtain ⟨space, hspace⟩ := Option.isSome_iff_exists.1 hspace
    simp only [hd, save, Page.requireSpace_eq_ok.2 hspace]
    exact ⟨_, rfl⟩

/-- Deleting a page leaves the others. -/
theorem spares_delete {p q : Page} (hne : p ≠ q) :
    BatchItem.Spares (.write (.delete p)) (.write (.delete q)) := by
  intro s s' hq hs
  rw [applied_delete] at hs
  rw [takes_delete] at hq ⊢
  have hkept : s'.documents.get? q = s.documents.get? q := by
    rw [document?_delete hs, if_neg hne.symm]
  exact (hasPage_congr hkept).trans hq

theorem exists_appliedAll_delete {pages : List Page} (hnodup : pages.Nodup)
    (hstored : ∀ p ∈ pages, s.hasPage p = true) :
    ∃ s', s.appliedAll (pages.map fun p => .write (.delete p)) = .ok s' := by
  refine exists_appliedAll ?_ (List.pairwise_map.2 (hnodup.imp spares_delete))
  intro item hitem
  obtain ⟨p, hp, rfl⟩ := List.mem_map.1 hitem
  exact takes_delete.2 (hstored p hp)

/-- Carrying a page over to another space leaves the others of its space where they are. -/
theorem spares_rename {p q : Page} (hne : p ≠ q) (hspaces : F ≠ T) (hq : q.isIn F = true) :
    BatchItem.Spares (.write (.rename p (p.movedTo T))) (.write (.rename q (q.movedTo T))) := by
  intro s s' htaken hs
  rw [applied_rename] at hs
  rw [takes_rename] at htaken ⊢
  refine ⟨?_, htaken.2⟩
  rw [hasPage_rename_of_ne hs hne.symm (Page.ne_of_isIn hspaces hq (p.isIn_movedTo T))]
  exact htaken.1

theorem exists_appliedAll_rename {pages : List Page} (hspaces : F ≠ T) (hnodup : pages.Nodup)
    (hstored : ∀ p ∈ pages, s.hasPage p = true ∧ p.isIn F = true) :
    ∃ s', s.appliedAll (pages.map fun p => .write (.rename p (p.movedTo T))) = .ok s' := by
  refine exists_appliedAll ?_ (List.pairwise_map.2 (hnodup.imp_of_mem ?_))
  · intro item hitem
    obtain ⟨p, hp, rfl⟩ := List.mem_map.1 hitem
    exact takes_rename.2 ⟨(hstored p hp).1, rfl⟩
  · intro p q _ hq hne
    exact spares_rename hne hspaces (hstored q hq).2

/-- Saving a document takes none away. -/
theorem spares_reparent (child other parent : Page) :
    BatchItem.Spares (.reparent child parent) (.reparent other parent) := by
  intro s s' htaken hs
  rw [takes_reparent] at htaken ⊢
  obtain ⟨d, hd, hspace⟩ := htaken
  simp only [applied] at hs
  split at hs
  · cases hs
  next e he =>
    have hafter := document?_save hs
    obtain ⟨own, hown, _⟩ := save_eq_ok hs
    simp only [document] at hd ⊢
    split at hd
    next hother =>
      simp only [hafter]
      split
      · exact ⟨_, rfl, by simpa [Document.savedAt] using hown ▸ rfl⟩
      · exact ⟨d, hd, hspace⟩
    · cases hd

theorem exists_appliedAll_reparent {pages : List Page} {parent : Page} (hs : s.Coherent)
    (hspaces : ∀ p ∈ pages, p.space.isSome = true) :
    ∃ s', s.appliedAll (pages.map fun p => .reparent p parent) = .ok s' := by
  refine exists_appliedAll ?_ (List.pairwise_map.2 (List.pairwise_of_forall ?_))
  · intro item hitem
    obtain ⟨p, hp, rfl⟩ := List.mem_map.1 hitem
    obtain ⟨space, hspace⟩ := Option.isSome_iff_exists.1 (hspaces p hp)
    have hd : s.document p = .ok ((s.documents.get? p).getD (.blank p)) := by
      simp only [document, Page.requireSpace_eq_ok.2 hspace]
    exact takes_reparent.2 ⟨_, hd, by rw [hs.reference_eq hd, hspace]; rfl⟩
  · exact fun p q => spares_reparent p q parent

end Store

/-! ## The repository -/

/-- Nothing is wrong with the repository: its store has come about by calls of it, every method works, and
no write is made to fail. -/
structure Repository.Healthy (r : Repository) : Prop where
  reachable : r.store.Reachable
  working : r.broken = []
  unstopped : r.failure = .never

namespace Repository

variable {r r' : Repository}

theorem healthy_ofStore {s : Store} (hs : s.Reachable) : (ofStore s).Healthy := ⟨hs, rfl, rfl⟩

/-- A write is answered as the store answers it. -/
theorem Healthy.write_eq (hr : r.Healthy) (w : Write) :
    r.write w = ((r.store.write w).1, (r.write w).2) := by
  have hpassed : r.failure.stops r.writes w.page = false := by
    rw [hr.unstopped]
    rfl
  rw [write_of_passed hr.working hpassed]
  rfl

/-- A write does not make a healthy repository fail. -/
theorem Healthy.write (hr : r.Healthy) (w : Write) : (r.write w).2.Healthy := by
  obtain ⟨hbroken, hfailure⟩ := r.write_fixed w
  exact ⟨reachable_write hr.reachable w, hbroken.trans hr.working, hfailure.trans hr.unstopped⟩

theorem Healthy.errsOnly_perform (hr : r.Healthy) {w : Write} (hw : w.Grounded r.store) :
    ErrsOnly ViewError.IsBadRequest (r.perform w).1 := by
  have hwrite : (r.write w).1 = (r.store.write w).1 := congrArg Prod.fst (hr.write_eq w)
  change ErrsOnly ViewError.IsBadRequest (viewed (r.write w).1)
  rw [hwrite]
  exact (Store.errsOnly_write hw).viewed

/-- What the store takes a healthy repository does. -/
theorem Healthy.apply (hr : r.Healthy) {item : BatchItem} {s' : Store}
    (h : r.store.applied item = .ok s') :
    ∃ r', r.apply item = (.ok (), r') ∧ r'.store = s' ∧ r'.Healthy := by
  have hwritten : ∀ w : Write, (r.store.write w).1 = .ok () →
      r.write w = (.ok (), (r.write w).2) := fun w hw => (hr.write_eq w).trans (by rw [hw])
  cases item with
  | write w =>
    have hw : (r.store.write w).1 = .ok () := by
      simp only [Store.applied] at h
      split at h
      next hw => rw [hw]
      · cases h
    have happly : r.apply (.write w) = (.ok (), (r.write w).2) := hwritten w hw
    exact ⟨_, happly, Except.ok.inj ((apply_eq_ok happly).symm.trans h), hr.write w⟩
  | reparent child parent =>
    simp only [Store.applied] at h
    split at h
    · cases h
    next d hd =>
      have hdocument : r.document child = .ok d := by
        rw [document, asked_of_working hr.working, hd]
      have hw : (r.store.write (.save { d with parent := some parent })).1 = .ok () := by
        simp only [Store.write, h, Store.settle]
      have happly : r.apply (.reparent child parent) =
          (.ok (), (r.write (.save { d with parent := some parent })).2) := by
        simp only [Repository.apply, hdocument]
        exact hwritten _ hw
      refine ⟨_, happly, ?_, hr.write _⟩
      have hstored := apply_eq_ok happly
      simp only [Store.applied, hd] at hstored
      exact Except.ok.inj (hstored.symm.trans h)

/-- A batch that the store can take goes through. -/
theorem Healthy.applyFrom (hr : r.Healthy) {batch : Batch} {done total : Nat} {items : List BatchItem}
    {s' : Store} (h : r.store.appliedAll items = .ok s') :
    (r.applyFrom batch done total items).1 = .ok () := by
  induction items generalizing r done with
  | nil => rfl
  | cons item rest ih =>
    obtain ⟨s₁, hfirst, hrest⟩ := Store.appliedAll_cons_eq_ok.1 h
    obtain ⟨r', happly, rfl, hr'⟩ := hr.apply hfirst
    simp only [Repository.applyFrom, happly]
    exact ih hr' hrest

theorem errsOnly_document (hworking : r.broken = []) (page : Page) :
    ErrsOnly StorageError.IsReference (r.document page) := by
  rw [document, asked_of_working hworking]
  exact r.store.errsOnly_document page

end Repository

/-! ## Plans -/

/-- What a plan is going to take away or to move is there, and the store takes its batch. -/
def Plan.Grounded (s : Store) : Plan → Prop
  | .write w => w.Grounded s
  | .batch _ items => ∃ s', s.appliedAll items = .ok s'
  | .renamePage source destination children =>
    s.hasPage source = true ∧ ∀ renamed, s.rename source destination = .ok renamed →
      ∃ s', renamed.appliedAll (children.map fun child => .reparent child destination) = .ok s'
  | _ => True

/-- On a healthy repository only a reference without a space stops such a plan. -/
theorem Plan.errsOnly_execute {plan : Plan} {w : Workspace} (hr : w.repository.Healthy)
    (hplan : plan.Grounded w.repository.store) :
    ErrsOnly ViewError.IsBadRequest (plan.execute w).1 := by
  cases plan with
  | nothing | writeScratch | removeScratch => exact errsOnly_ok ()
  | write change => exact hr.errsOnly_perform hplan
  | saveText node document text =>
    exact hr.errsOnly_perform (w := .save { document with content := text }) trivial
  | batch task items =>
    obtain ⟨s', hs'⟩ := hplan
    intro e he
    cases (hr.applyFrom hs').symm.trans he
  | renamePage source destination children =>
    obtain ⟨hstored, hchildren⟩ := hplan
    have hperform := hr.errsOnly_perform (w := .rename source destination) hstored
    have hafter := hr.write (.rename source destination)
    simp only [execute, Workspace.withRepository, Repository.renamePage]
    split
    next e r' hp =>
      rw [hp] at hperform
      exact errsOnly_error.2 (errsOnly_error.1 hperform)
    next r' hp =>
      have hwrite := Repository.perform_eq_ok hp
      rw [hwrite] at hafter
      obtain ⟨s', hs'⟩ := hchildren r'.store (Store.settle_eq_ok (Repository.write_eq_ok hwrite))
      intro e he
      cases (hafter.applyFrom hs').symm.trans he

end WikiMount
