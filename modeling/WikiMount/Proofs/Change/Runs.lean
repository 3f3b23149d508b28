import WikiMount.Change.Plan
import WikiMount.Proofs.Storage.RepositoryWrites

/-!
# Runs of writes

A batch goes on until a write fails. What each of its items preserves, it preserves however far it
gets, so properties of batches come from properties of single writes.
-/

namespace WikiMount

theorem Store.Coherent.reference_eq {s : Store} (hs : s.Coherent) {p : Page} {d : Document}
    (h : s.document p = .ok d) : d.reference = p := by
  unfold Store.document at h
  split at h
  next =>
    obtain rfl := Except.ok.inj h
    cases hd : s.documents.get? p with
    | none => rfl
    | some d => exact hs.filed p d hd
  · cases h

namespace Repository

variable {r : Repository}

theorem reference_eq (hs : r.store.Coherent) {p : Page} {d : Document} (h : r.document p = .ok d) :
    d.reference = p :=
  hs.reference_eq (asked_eq_ok h)

theorem perform_eq_ok {r' : Repository} {w : Write}
    (h : r.perform w = (.ok (), r')) : r.write w = (.ok (), r') := by
  simp only [perform] at h
  rcases hw : r.write w with ⟨answer, r₁⟩
  rw [hw] at h
  obtain ⟨hanswer, rfl⟩ := Prod.mk.inj h
  cases answer with
  | ok _ => rfl
  | error e => cases hanswer

/-- A write that succeeds is performed by the store and counted. -/
theorem perform_stored {w : Write} (h : (r.perform w).1 = .ok ()) :
    r.store.write w = (.ok (), (r.perform w).2.store) ∧
      (r.perform w).2 = { r with store := (r.perform w).2.store, writes := r.writes + 1 } := by
  rcases hdone : r.perform w with ⟨answer, r'⟩
  rw [hdone] at h
  obtain rfl : answer = .ok () := h
  have hwrite := perform_eq_ok hdone
  exact ⟨write_eq_ok hwrite, counted_of_write hwrite⟩

theorem reachable_apply (hs : r.store.Reachable) (item : BatchItem) :
    (r.apply item).2.store.Reachable := by
  cases item with
  | write w => exact reachable_write hs w
  | reparent child parent =>
    simp only [apply]
    split
    · exact hs
    · exact reachable_write hs _

theorem coherent_apply (hs : r.store.Coherent) (item : BatchItem) :
    (r.apply item).2.store.Coherent := by
  cases item with
  | write w => exact coherent_write hs w
  | reparent child parent =>
    simp only [apply]
    split
    · exact hs
    · exact coherent_write hs _

/-- A batch that does not fail has applied its first item and gone on. -/
theorem applyFrom_cons_eq_ok {batch : Batch} {done total : Nat} {item : BatchItem}
    {rest : List BatchItem} (h : (r.applyFrom batch done total (item :: rest)).1 = .ok ()) :
    ∃ r', r.apply item = (.ok (), r') ∧
      r.applyFrom batch done total (item :: rest) = r'.applyFrom batch (done + 1) total rest := by
  simp only [applyFrom] at h ⊢
  split at h
  next r' ha => exact ⟨r', ha, rfl⟩
  next => cases h

/-- What every item of a batch preserves, a batch preserves however far it gets. -/
theorem applyFrom_invariant (I : Store → Prop) {batch : Batch} {done total : Nat}
    {items : List BatchItem}
    (hitem : ∀ item ∈ items, ∀ r : Repository, I r.store → I (r.apply item).2.store)
    (h : I r.store) : I (r.applyFrom batch done total items).2.store := by
  induction items generalizing r done with
  | nil => exact h
  | cons item rest ih =>
    have hnext : I (r.apply item).2.store := hitem item (.head rest) r h
    simp only [applyFrom]
    split
    next r' ha =>
      rw [ha] at hnext
      exact ih (fun other ho => hitem other (.tail item ho)) hnext
    next r' ha =>
      rw [ha] at hnext
      exact hnext

theorem reachable_applyBatch {batch : Batch} {items : List BatchItem} (hs : r.store.Reachable) :
    (r.applyBatch batch items).2.store.Reachable :=
  applyFrom_invariant Store.Reachable (fun item _ _ h => reachable_apply h item) hs

theorem reachable_perform (hs : r.store.Reachable) (w : Write) :
    (r.perform w).2.store.Reachable :=
  reachable_write hs w

end Repository

/-- However a plan ends, it has come to its end by writes. -/
theorem Plan.execute_reachable {plan : Plan} {w : Workspace} (hs : w.repository.store.Reachable) :
    (plan.execute w).2.repository.store.Reachable := by
  cases plan with
  | nothing | writeScratch | removeScratch => exact hs
  | write change => exact Repository.reachable_perform hs change
  | saveText node document text => exact Repository.reachable_perform hs _
  | batch task items => exact Repository.reachable_applyBatch hs
  | renamePage source destination children =>
    have hrenamed := Repository.reachable_perform hs (.rename source destination)
    simp only [execute, Workspace.withRepository, Repository.renamePage]
    split
    next hp =>
      rw [hp] at hrenamed
      exact hrenamed
    next hp =>
      rw [hp] at hrenamed
      exact Repository.reachable_applyBatch hrenamed

end WikiMount
