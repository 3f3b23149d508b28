import WikiMount.Proofs.Change.Rejection
import WikiMount.Proofs.Change.Runs

/-!
# How far batches get

A batch goes through its items in order and ends complete or at an item that fails. Here an item is
described by what it does to the store where nothing is refused. A run that ends has done this with the
items before the one that failed, and the failed item has left no trace, so the number in the error is
the length of the prefix that the store has seen. An internal error that reports no batch comes from
before the first write, and has changed nothing.
-/

namespace WikiMount

namespace Store

/-- What an item of a batch does to the store. -/
def applied (s : Store) : BatchItem → Except StorageError Store
  | .write w =>
    match s.write w with
    | (.ok (), s') => .ok s'
    | (.error e, _) => .error e
  | .reparent child parent =>
    match s.document child with
    | .error e => .error e
    | .ok d => s.save { d with parent := some parent }

theorem applied_rename (s : Store) (p q : Page) :
    s.applied (.write (.rename p q)) = s.rename p q := by
  simp only [applied, write, settle]
  cases s.rename p q <;> rfl

theorem applied_delete (s : Store) (p : Page) : s.applied (.write (.delete p)) = s.delete p := by
  simp only [applied, write, settle]
  cases s.delete p <;> rfl

/-- What items do one after another. -/
def appliedAll (s : Store) (items : List BatchItem) : Except StorageError Store :=
  items.foldlM applied s

variable {s s' : Store} {item : BatchItem} {items : List BatchItem}

theorem appliedAll_cons_eq_ok : s.appliedAll (item :: items) = .ok s' ↔
    ∃ s₁, s.applied item = .ok s₁ ∧ s₁.appliedAll items = .ok s' := by
  simp only [appliedAll, List.foldlM_cons]
  exact Except.bind_eq_ok

end Store

/-- The items that a batch goes through, and the store that it starts from. -/
structure BatchRun where
  batch : Batch
  start : Store
  items : List BatchItem

namespace Repository

theorem apply_eq_ok {r r' : Repository} {item : BatchItem} (h : r.apply item = (.ok (), r')) :
    r.store.applied item = .ok r'.store := by
  cases item with
  | write w => simp only [Store.applied, write_eq_ok h]
  | reparent child parent =>
    simp only [apply] at h
    split at h
    · cases h
    next d hd =>
      have hdocument : r.store.document child = .ok d := asked_eq_ok hd
      simp only [Store.applied, hdocument]
      exact Store.settle_eq_ok (write_eq_ok h)

/-- A run ends complete, or at an item that fails and leaves no trace. -/
theorem applyFrom_ends (r : Repository) (batch : Batch) (done total : Nat) {items : List BatchItem}
    (hitems : ∀ item ∈ items, item.Addressed) :
    (∃ after, r.applyFrom batch done total items = (.ok (), after) ∧
        r.store.appliedAll items = .ok after.store) ∨
      ∃ count item cause after, items[count]? = some item ∧
        after.apply item = (.error cause, after) ∧
        r.store.appliedAll (items.take count) = .ok after.store ∧
        r.applyFrom batch done total items =
          (.error (.internal (.partiallyApplied batch (done + count) total cause)), after) := by
  induction items generalizing r done with
  | nil => exact .inl ⟨r, rfl, rfl⟩
  | cons item rest ih =>
    rcases hitem : r.apply item with ⟨answer, r'⟩
    cases answer with
    | error cause =>
      have hkeep : (r.apply item).2 = r :=
        apply_error (hitems item (.head rest)) (congrArg Prod.fst hitem)
      rw [hitem] at hkeep
      obtain rfl : r' = r := hkeep
      exact .inr ⟨0, item, cause, r', rfl, hitem, rfl, by simp [applyFrom, hitem]⟩
    | ok _ =>
      have hstep := apply_eq_ok hitem
      have hrun : r.applyFrom batch done total (item :: rest) =
          r'.applyFrom batch (done + 1) total rest := by
        simp only [applyFrom, hitem]
      obtain ⟨after, hafter, happlied⟩ | ⟨count, failed, cause, after, hfailed, hstop, happlied, hafter⟩ :=
        ih r' (done + 1) fun other ho => hitems other (.tail item ho)
      · exact .inl ⟨after, hrun.trans hafter,
          Store.appliedAll_cons_eq_ok.2 ⟨r'.store, hstep, happlied⟩⟩
      · refine .inr ⟨count + 1, failed, cause, after, hfailed, hstop, ?_, ?_⟩
        · rw [List.take_succ_cons]
          exact Store.appliedAll_cons_eq_ok.2 ⟨r'.store, hstep, happlied⟩
        · rw [hrun, hafter, Nat.add_assoc, Nat.add_comm 1]

end Repository

/-- What an answer tells of the repository, given the batch that the request runs if it gets so far. -/
structure Tells {α : Type} (run? : Option BatchRun) (before : Repository) (answer : Except ViewError α)
    (after : Repository) : Prop where
  /-- A batch that stops has gone through the items before the one that failed, and no others. -/
  stopped : ∀ batch done total cause,
    answer = .error (.internal (.partiallyApplied batch done total cause)) →
      ∃ run item, run? = some run ∧ run.batch = batch ∧ run.items.length = total ∧
        run.items[done]? = some item ∧ after.apply item = (.error cause, after) ∧
        run.start.appliedAll (run.items.take done) = .ok after.store
  finished : ∀ run a, run? = some run → answer = .ok a →
    run.start.appliedAll run.items = .ok after.store
  /-- Any other error comes from before the first write. -/
  elsewhere : ∀ e, answer = .error e → e.Unbatched → after = before

namespace Tells

variable {α β : Type} {run? : Option BatchRun} {before after : Repository} {answer : Except ViewError α}

theorem refused {e : ViewError} (he : e.Unbatched) :
    Tells run? before (.error e : Except ViewError α) before where
  stopped batch done total cause h := absurd (Except.error.inj h) (he batch done total cause)
  finished _ _ _ h := nomatch h
  elsewhere _ _ _ := rfl

/-- A request without a batch answers with an error only where it has changed nothing. -/
theorem unbatched (h : Unbatched answer) (hkept : ∀ e, answer = .error e → after = before) :
    Tells none before answer after where
  stopped batch done total cause he := absurd rfl (h _ he batch done total cause)
  finished _ _ h := nomatch h
  elsewhere e he _ := hkept e he

theorem map {f : α → β} (h : Tells run? before answer after) :
    Tells run? before (answer.map f) after where
  stopped batch done total cause he := h.stopped batch done total cause (Except.map_eq_error.1 he)
  finished run _ hrun ha := by
    obtain ⟨a, ha, _⟩ := Except.map_eq_ok.1 ha
    exact h.finished run a hrun ha
  elsewhere e he hunbatched := h.elsewhere e (Except.map_eq_error.1 he) hunbatched

/-- A batch that goes through all its items, starting from `now`, tells how far it got. -/
theorem applyBatch {now : Repository} {batch : Batch} {items : List BatchItem}
    (hitems : ∀ item ∈ items, item.Addressed) :
    Tells (some ⟨batch, now.store, items⟩) before (now.applyBatch batch items).1
      (now.applyBatch batch items).2 := by
  obtain ⟨after, hafter, happlied⟩ | ⟨count, item, cause, after, hitem, hstop, happlied, hafter⟩ :=
    now.applyFrom_ends batch 0 items.length hitems
  · simp only [Repository.applyBatch, hafter]
    constructor
    · intro _ _ _ _ h
      cases h
    · intro run _ hrun _
      obtain rfl := Option.some.inj hrun
      exact happlied
    · intro _ h
      cases h
  · rw [Nat.zero_add] at hafter
    simp only [Repository.applyBatch, hafter]
    constructor
    · intro _ _ _ _ h
      cases h
      exact ⟨_, item, rfl, rfl, rfl, hitem, hstop, happlied⟩
    · intro _ _ _ h
      cases h
    · intro e he hunbatched
      exact absurd (Except.error.inj he).symm (hunbatched batch count items.length cause)

end Tells

/-! ## Plans -/

theorem Repository.unbatched_perform (r : Repository) (w : Write) : Unbatched (r.perform w).1 :=
  unbatched_viewed (r.write w).1

/-- The batch of a plan, once what comes before it has been done. -/
def Plan.run? (s : Store) : Plan → Option BatchRun
  | .batch task items => some ⟨task, s, items⟩
  | .renamePage source destination children =>
    match s.rename source destination with
    | .error _ => none
    | .ok renamed => some ⟨.reparentChildren source, renamed,
        children.map fun child => .reparent child destination⟩
  | _ => none

theorem Repository.renamePage_tells (r : Repository) (source destination : Page)
    (children : List Page) :
    Tells (Plan.run? r.store (.renamePage source destination children)) r
      (r.renamePage source destination children).1 (r.renamePage source destination children).2 := by
  simp only [renamePage]
  split
  next e r' hp =>
    have hanswer : (r.perform (.rename source destination)).1 = .error e := congrArg Prod.fst hp
    have hkeep : r' = r := by
      have hsame := perform_error (w := .rename source destination) trivial hanswer
      rwa [hp] at hsame
    exact hkeep ▸ .refused (r.unbatched_perform _ e hanswer)
  next renamed hp =>
    have hrename : r.store.rename source destination = .ok renamed.store :=
      Store.settle_eq_ok (write_eq_ok (perform_eq_ok hp))
    simp only [Plan.run?, hrename]
    refine .applyBatch fun item hitem => ?_
    obtain ⟨child, _, rfl⟩ := List.mem_map.1 hitem
    trivial

/-- Carrying a plan out tells how far its batch got, or that nothing was done. -/
theorem Plan.execute_tells {plan : Plan} {w : Workspace} (hplan : plan.Addressed) :
    Tells (plan.run? w.repository.store) w.repository (plan.execute w).1
      (plan.execute w).2.repository := by
  cases plan with
  | batch batch items => exact .applyBatch hplan
  | renamePage source destination children =>
    exact w.repository.renamePage_tells source destination children
  | nothing | writeScratch | removeScratch =>
    exact .unbatched (unbatched_ok _) fun _ h => nomatch h
  | write change =>
    exact .unbatched (w.repository.unbatched_perform change) fun _ =>
      Repository.perform_error hplan
  | saveText node document text =>
    let saved : Write := .save { document with content := text }
    exact .unbatched (w.repository.unbatched_perform saved) fun _ =>
      Repository.perform_error (w := saved) trivial

/-- A batch that is carried out to its end has done what its items do. -/
theorem Plan.appliedAll_of_batch {batch : Batch} {items : List BatchItem} {w : Workspace}
    (hbatch : (Plan.batch batch items).Addressed)
    (hok : ((Plan.batch batch items).execute w).1 = .ok ()) :
    w.repository.store.appliedAll items =
      .ok ((Plan.batch batch items).execute w).2.repository.store :=
  (Plan.execute_tells hbatch).finished _ _ rfl hok

/-! ## Requests -/

namespace Store

/-- The batch that removing a node runs, by the kind of the node and its path. -/
def removal? (s : Store) (kind : NodeKind) (path : String) : Option BatchRun :=
  match kind with
  | .space space .pages =>
    some ⟨.deleteSpace space, s, (s.pagesIn space).map fun p => .write (.delete p)⟩
  | .pageGroup space group =>
    some ⟨.deleteGroup path, s, (s.pagesBeginning space group.key).map fun p => .write (.delete p)⟩
  | _ => none

/-- The batch that renaming a node runs, by the kinds of the node and of the one it is to be. -/
def renaming? (s : Store) : NodeKind → NodeKind → Option BatchRun
  | .space F .pages, .space T .pages =>
    some ⟨.renameSpace F T, s, (s.pagesIn F).map fun p => .write (.rename p (p.movedTo T))⟩
  | .page F, .page T =>
    match s.rename F T with
    | .error _ => none
    | .ok renamed => some ⟨.reparentChildren F, renamed,
        ((s.childrenOf F).filter (· != F) ++ if (s.childrenOf F).contains F then [T] else []).map
          fun child => .reparent child T⟩
  | _, _ => none

end Store

namespace Context

variable {ctx : Context} {t : Tree} {dir child source destination : Nat} {plan : Plan}

theorem Adds.run?_eq {content : Option Bytes} (h : ctx.Adds t dir child content plan) :
    plan.run? ctx.repository.store = none := by
  cases h <;> rfl

theorem Removes.run?_eq (ht : t.AnswersFor dir child)
    (hremovable : (t.kind child).capabilities.canRemove = true)
    (h : ctx.Removes t dir child plan) :
    plan.run? ctx.repository.store = ctx.repository.store.removal? (t.kind child) (t.path child) := by
  cases h with
  | scratch hchild | wikiFile _ hchild | attachment _ hchild => simp only [hchild]; rfl
  | below _ hchild | inSpace _ hchild =>
    simp only [hchild, Store.removal?]
    split <;> rfl
  | @space space view pages _ hchild hpages =>
    have hlisted : ctx.repository.store.pagesIn space = pages :=
      Repository.eq_of_asked hpages
    rw [hchild] at hremovable ⊢
    cases view with
    | pages => simp only [Plan.run?, Store.removal?, hlisted]
    | attachments => cases hremovable
  | @group space own group pages hdir hchild hpages =>
    rw [ht.space_of_group hchild] at hdir
    obtain rfl : own = space := by simpa using hdir
    have hlisted : ctx.repository.store.pagesBeginning own group.key = pages :=
      Repository.eq_of_asked hpages
    simp only [hchild, Plan.run?, Store.removal?, hlisted]

theorem Moves.run?_eq (h : ctx.Moves t source destination plan) :
    plan.run? ctx.repository.store =
      ctx.repository.store.renaming? (t.kind source) (t.kind destination) := by
  cases h with
  | @page page other _ children hsource hdestination _ _ _ _ _ _ hchildren =>
    have hlisted : ctx.repository.store.childrenOf page = children :=
      Repository.eq_of_asked hchildren
    simp only [hsource, hdestination, Plan.run?, Store.renaming?, hlisted]
  | @space space other pages hsource hdestination _ _ _ _ hpages =>
    have hlisted : ctx.repository.store.pagesIn space = pages :=
      Repository.eq_of_asked hpages
    simp only [hsource, hdestination, Plan.run?, Store.renaming?, hlisted]
  | attachment hsource hdestination => simp only [hsource, hdestination]; rfl

/-- A request tells how far its batch got if each plan it may carry out is one with that batch. -/
theorem Carries.tells {sort : Plan → Prop} {outcome : Except ViewError Unit × Workspace}
    {run? : Option BatchRun} (h : ctx.Carries sort outcome)
    (hsort : ∀ plan, sort plan → plan.Addressed ∧ plan.run? ctx.repository.store = run?) :
    Tells run? ctx.repository outcome.1 outcome.2.repository := by
  obtain ⟨e, he, rfl⟩ | ⟨plan, hplan, rfl⟩ := h
  · exact .refused he
  · obtain ⟨haddressed, rfl⟩ := hsort plan hplan
    exact Plan.execute_tells haddressed

end Context

namespace Service

/-- The batch that a request runs if it gets so far. -/
def batch? (s : Service) (caller : Caller) : Request → Option BatchRun
  | .delete path =>
    match (s.context caller .delete).lookup path with
    | .error _ => none
    | .ok (id, t) => s.repository.store.removal? (t.kind id) (t.path id)
  | request =>
    match s.renamed? caller request with
    | none => none
    | some (source, destination) => s.repository.store.renaming? source destination

variable {s : Service} {caller : Caller} {intent : Intent}

theorem run_reading_tells {α : Type} {f : Context → Except ViewError α}
    (hf : Unbatched (f (s.context caller intent))) :
    Tells none s.repository (s.run caller intent (reading f)).1
      (s.run caller intent (reading f)).2.repository :=
  .unbatched hf fun _ _ => rfl

theorem run_tells {sort : Plan → Prop} {f : Context → Except ViewError Unit × Workspace}
    {run? : Option BatchRun} (h : (s.context caller intent).Carries sort (f (s.context caller intent)))
    (hsort : ∀ plan, sort plan → plan.Addressed ∧ plan.run? s.repository.store = run?) :
    Tells run? s.repository (s.run caller intent f).1 (s.run caller intent f).2.repository := by
  rw [run_answer, run_repository]
  exact h.tells hsort

theorem rename_tells (s : Service) (caller : Caller) (path other : String) :
    Tells (s.batch? caller (.rename path other)) s.repository (s.rename caller path other).1
      (s.rename caller path other).2.repository := by
  obtain ⟨⟨e, he, hanswer⟩, hkept⟩ | ⟨ctx, t, source, destination, plan, hrepo, _, hkinds, hresolved,
      hmoves, hanswer, hafter⟩ := s.rename_carries caller path other
  · rw [hanswer, hkept]
    exact .refused he
  · rw [hanswer, hafter]
    simp only [batch?, hkinds]
    rw [← hrepo, ← hmoves.run?_eq]
    exact Plan.execute_tells (hmoves.addressed hresolved)

/-- Whatever a request is answered, the repository is known from the answer: a batch that stops says
how many of its items the store has seen, one that ends has gone through all of them, and any other
error has changed nothing. -/
theorem handle_tells (s : Service) (caller : Caller) (request : Request) :
    Tells (s.batch? caller request) s.repository (s.handle caller request).1
      (s.handle caller request).2.repository := by
  cases request with
  | list path => exact (run_reading_tells (Context.unbatched_list _ path)).map
  | stat path => exact (run_reading_tells (Context.unbatched_stat _ path)).map
  | read path => exact (run_reading_tells (Context.unbatched_read _ path)).map
  | makeCollection path =>
    refine (run_tells (Context.makeCollection_carries _ path) ?_).map
    rintro plan ⟨t, dir, id, _, hadds⟩
    exact ⟨hadds.addressed, hadds.run?_eq⟩
  | put path data =>
    refine (run_tells (Context.put_carries _ path data) ?_).map
    rintro plan ⟨t, dir, id, _, hadds⟩
    exact ⟨hadds.addressed, hadds.run?_eq⟩
  | delete path =>
    refine (run_tells (Context.delete_carries _ path) ?_).map
    rintro plan ⟨t, dir, id, hl, hremovable, ht, hremoves⟩
    refine ⟨hremoves.addressed, ?_⟩
    simp only [batch?, hl]
    exact hremoves.run?_eq ht hremovable
  | rename path other => exact (s.rename_tells caller path other).map

/-- The rename of a space of three pages stops after the first one. -/
theorem handle_tells_stopped :
    let page := fun name => Page.inSpace name (.topLevel "F")
    let store := Store.ofPages [page "A", page "B", page "C"]
    let s := Service.new { Repository.ofStore store with failure := .afterWrites 1 } .standard
    let caller : Caller := ⟨.anonymous, .allowAll⟩
    let request := Request.rename "/spaces/F" "/spaces/T"
    let after := (s.handle caller request).2.repository.store
    let moved := Page.inSpace "A" (.topLevel "T")
    (∃ cause, (s.handle caller request).1 = .error (.internal (.partiallyApplied
      (.renameSpace (.topLevel "F") (.topLevel "T")) 1 3 cause))) ∧
      store.appliedAll [.write (.rename (page "A") moved)] = .ok after := by
  intro page store s caller request after moved
  have hanswer : (s.handle caller request).1 = .error (.internal (.partiallyApplied
      (.renameSpace (.topLevel "F") (.topLevel "T")) 1 3
      (.backend "injected write failure on F.B"))) := by
    dsimp only [page, store, s, caller, request]
    rfl
  refine ⟨⟨_, hanswer⟩, ?_⟩
  obtain ⟨run, _, hrun, _, _, _, _, happlied⟩ :=
    (handle_tells s caller request).stopped _ _ _ _ hanswer
  have hbatch : s.batch? caller request = some ⟨.renameSpace (.topLevel "F") (.topLevel "T"), store,
      ["A", "B", "C"].map fun name =>
        .write (.rename (page name) ((page name).movedTo (.topLevel "T")))⟩ := by
    dsimp only [page, store, s, caller, request]
    rfl
  obtain rfl := Option.some.inj (hrun.symm.trans hbatch)
  exact happlied

end Service

end WikiMount
