import WikiMount.Proofs.Change.Requests
import WikiMount.Proofs.Session.Storages
import WikiMount.Proofs.Storage.Losses
import WikiMount.Proofs.Storage.RepositoryWrites

/-!
# Requests that are turned down

A request is turned down where its answer is an error that is not internal. All checks come before
the first write, and the only errors of a batch that has begun are internal ones, so a request that is
turned down has changed nothing. The one write that could fail half-way moves a file to a page without
a space, which is never found at a path.
-/

namespace WikiMount

namespace ViewError

/-- The request could not be honoured, was not permitted, or is never allowed. -/
def IsRejection : ViewError → Prop
  | .badRequest _ | .forbidden _ _ | .methodNotAllowed _ => True
  | .internal _ => False

instance : DecidablePred IsRejection
  | .badRequest _ => isTrue trivial
  | .forbidden _ _ => isTrue trivial
  | .methodNotAllowed _ => isTrue trivial
  | .internal _ => isFalse id

end ViewError

theorem ViewError.IsRejection.unbatched {e : ViewError} (h : e.IsRejection) : e.Unbatched := by
  rintro batch done total cause rfl
  exact h

theorem Except.map_eq_error {ε α β : Type} {f : α → β} {x : Except ε α} {e : ε} :
    x.map f = .error e ↔ x = .error e := by
  cases x <;> simp [Except.map]

/-! ## Writes and plans -/

/-- Files are moved to pages that have a space only. -/
def Write.Addressed : Write → Prop
  | .move _ destination => destination.page.space.isSome = true
  | _ => True

def BatchItem.Addressed : BatchItem → Prop
  | .write w => w.Addressed
  | .reparent _ _ => True

def Plan.Addressed : Plan → Prop
  | .write w => w.Addressed
  | .batch _ items => ∀ item ∈ items, item.Addressed
  | _ => True

theorem Store.write_error {s : Store} {w : Write} {e : StorageError} (hw : w.Addressed)
    (h : (s.write w).1 = .error e) : (s.write w).2 = s := by
  obtain ⟨hsame, _⟩ | ⟨a, _, hlost⟩ := write_error_cases h
  · exact hsame
  · obtain ⟨b, rfl, hspace, _⟩ := (hlost a).2 rfl
    simp [Write.Addressed, hspace] at hw

namespace Repository

variable {r : Repository} {w : Write}

theorem write_error {e : StorageError} (hw : w.Addressed) (h : (r.write w).1 = .error e) :
    (r.write w).2 = r := by
  obtain ⟨_, he⟩ | he := r.write_cases w
  · rw [he]
  · have hanswer : (r.store.write w).1 = .error e := (congrArg Prod.fst he).symm.trans h
    rw [he, performed, hanswer, Store.write_error hw hanswer]
    rfl

theorem apply_error {item : BatchItem} {e : StorageError} (hitem : item.Addressed)
    (h : (r.apply item).1 = .error e) : (r.apply item).2 = r := by
  cases item with
  | write w => exact write_error hitem h
  | reparent child parent =>
    simp only [apply] at h ⊢
    split
    · rfl
    next d hd =>
      rw [hd] at h
      exact write_error trivial h

theorem perform_error {e : ViewError} (hw : w.Addressed) (h : (r.perform w).1 = .error e) :
    (r.perform w).2 = r := by
  simp only [perform] at h ⊢
  cases ha : (r.write w).1 with
  | ok _ => simp [ha, viewed] at h
  | error _ => exact write_error hw ha

theorem applyFrom_error {batch : Batch} {done total : Nat} {items : List BatchItem} {e : ViewError}
    (h : (r.applyFrom batch done total items).1 = .error e) : ¬e.Unbatched := by
  induction items generalizing r done with
  | nil => simp [applyFrom] at h
  | cons item rest ih =>
    simp only [applyFrom] at h
    split at h
    · exact ih h
    · obtain rfl := Except.error.inj h
      exact fun he => he _ _ _ _ rfl

/-- Once the page has been renamed, what goes wrong is reported of the batch. -/
theorem renamePage_error {source destination : Page} {children : List Page} {e : ViewError}
    (he : e.Unbatched) (h : (r.renamePage source destination children).1 = .error e) :
    (r.renamePage source destination children).2 = r := by
  simp only [renamePage] at h ⊢
  split
  next e' r' hp =>
    have hkeep : (r.perform (.rename source destination)).2 = r :=
      perform_error trivial (congrArg Prod.fst hp)
    rwa [hp] at hkeep
  next r' hp =>
    rw [hp] at h
    exact absurd he (applyFrom_error h)

end Repository

theorem Plan.execute_error {plan : Plan} {w : Workspace} {e : ViewError} (hplan : plan.Addressed)
    (he : e.Unbatched) (h : (plan.execute w).1 = .error e) : (plan.execute w).2 = w := by
  cases plan with
  | nothing => rfl
  | writeScratch path data => cases h
  | removeScratch path => cases h
  | write change =>
    have hkeep : (w.repository.perform change).2 = w.repository :=
      Repository.perform_error hplan h
    simp only [execute, Workspace.withRepository, hkeep]
  | saveText node document text =>
    have hkeep : (w.repository.perform (.save { document with content := text })).2 =
        w.repository :=
      Repository.perform_error trivial h
    simp only [execute, Workspace.withRepository, hkeep]
  | batch task items => exact absurd he (Repository.applyFrom_error h)
  | renamePage source destination children =>
    have hkeep : (w.repository.renamePage source destination children).2 = w.repository :=
      Repository.renamePage_error he h
    simp only [execute, Workspace.withRepository, hkeep]

namespace Context

variable {ctx : Context} {t : Tree} {dir child source destination : Nat} {plan : Plan}

theorem Adds.addressed {content : Option Bytes} (h : ctx.Adds t dir child content plan) :
    plan.Addressed := by
  cases h <;> trivial

theorem addressed_writes (write : Page → Write) (hwrite : ∀ p, (write p).Addressed) {batch : Batch}
    {pages : List Page} : (Plan.batch batch (pages.map fun p => .write (write p))).Addressed := by
  intro item hitem
  obtain ⟨p, _, rfl⟩ := List.mem_map.1 hitem
  exact hwrite p

theorem Removes.addressed (h : ctx.Removes t dir child plan) : plan.Addressed := by
  cases h with
  | below | inSpace => split <;> trivial
  | group | space => exact addressed_writes .delete fun _ => trivial
  | _ => trivial

/-- What is found at a path is the file of a page with a space. -/
theorem Moves.addressed (ht : t.Resolved) (h : ctx.Moves t source destination plan) :
    plan.Addressed := by
  cases h with
  | attachment _ hdestination =>
    obtain ⟨p, _, hp⟩ := ht.parent_of_attachment hdestination
    exact ht.space_of_page hp
  | @space _ other => exact addressed_writes (fun p => .rename p (p.movedTo other)) fun _ => trivial
  | page => trivial

/-! ## Requests -/

/-- Whenever a request is turned down its workspace is as it was. -/
def RejectsCleanly {α : Type} (f : Context → Except ViewError α × Workspace) : Prop :=
  ∀ ctx e, e.IsRejection → (f ctx).1 = .error e → (f ctx).2 = ctx.toWorkspace

theorem Carries.keeps {sort : Plan → Prop} {outcome : Except ViewError Unit × Workspace}
    {e : ViewError} (h : ctx.Carries sort outcome) (hsort : ∀ plan, sort plan → plan.Addressed)
    (he : e.IsRejection) (herror : outcome.1 = .error e) : outcome.2 = ctx.toWorkspace := by
  obtain ⟨_, _, rfl⟩ | ⟨plan, hplan, rfl⟩ := h
  · rfl
  · exact Plan.execute_error (hsort plan hplan) he.unbatched herror

theorem rejectsCleanly_makeCollection (path : String) :
    RejectsCleanly fun ctx => ctx.makeCollection path := by
  intro ctx e he h
  refine (ctx.makeCollection_carries path).keeps ?_ he h
  rintro plan ⟨t, dir, id, _, hadds⟩
  exact hadds.addressed

theorem rejectsCleanly_put (path : String) (data : Bytes) :
    RejectsCleanly fun ctx => ctx.put path data := by
  intro ctx e he h
  refine (ctx.put_carries path data).keeps ?_ he h
  rintro plan ⟨t, dir, id, _, hadds⟩
  exact hadds.addressed

theorem rejectsCleanly_delete (path : String) : RejectsCleanly fun ctx => ctx.delete path := by
  intro ctx e he h
  refine (ctx.delete_carries path).keeps ?_ he h
  rintro plan ⟨t, dir, id, _, _, _, hremoves⟩
  exact hremoves.addressed

theorem rejectsCleanly_rename (path other : String) :
    RejectsCleanly fun ctx => ctx.rename path other := by
  intro ctx e he h
  refine (ctx.rename_carries path other).keeps ?_ he h
  rintro plan ⟨t, source, destination, hl, hmoves⟩
  exact hmoves.addressed (lookupTwo_resolved hl).1

end Context

/-! ## The service -/

namespace Service

/-- The repository and every scratch storage, that of the caller among them, are as they were. -/
structure SameContents (s s' : Service) : Prop where
  repository : s'.repository = s.repository
  storage : ∀ id, s'.sessions.storage id = s.sessions.storage id

variable {s : Service} {caller : Caller} {intent : Intent} {e : ViewError}

theorem SameContents.trans {s' s'' : Service} (h : s.SameContents s') (h' : s'.SameContents s'') :
    s.SameContents s'' where
  repository := h'.repository.trans h.repository
  storage id := (h'.storage id).trans (h.storage id)

theorem run_sameContents {α : Type} {f : Context → Except ViewError α × Workspace}
    (hf : (f (s.context caller intent)).2 = (s.context caller intent).toWorkspace) :
    s.SameContents (s.run caller intent f).2 where
  repository := by
    rw [run_repository, hf]
    rfl
  storage id := by
    rw [run_sessions, hf, ← Sessions.storage_getOrCreate s.sessions caller.principal.name id]
    exact Sessions.storage_setStorage_self _ _ id

theorem run_reading_sameContents {α : Type} (f : Context → Except ViewError α) :
    s.SameContents (s.run caller intent (reading f)).2 :=
  run_sameContents rfl

theorem run_rejected {f : Context → Except ViewError Unit × Workspace}
    (hf : Context.RejectsCleanly f) (he : e.IsRejection)
    (h : (s.run caller intent f).1 = .error e) : s.SameContents (s.run caller intent f).2 :=
  run_sameContents (hf (s.context caller intent) e he h)

theorem rename_rejected {source destination : String} (he : e.IsRejection)
    (h : (s.rename caller source destination).1 = .error e) :
    s.SameContents (s.rename caller source destination).2 := by
  have hlook : s.SameContents
      (s.run caller (.move .unknown) (reading fun ctx => ctx.moveSourceAt source)).2 :=
    run_reading_sameContents fun ctx => ctx.moveSourceAt source
  simp only [rename] at h ⊢
  split
  next hrun =>
    rw [hrun] at hlook
    exact hlook
  next moving s' hrun =>
    rw [hrun] at h hlook
    exact hlook.trans (run_rejected (Context.rejectsCleanly_rename source destination) he h)

/-- A request that is turned down leaves the repository and all scratch files as they were. -/
theorem handle_rejected {s : Service} {caller : Caller} {request : Request} {e : ViewError}
    (h : (s.handle caller request).1 = .error e) (he : e.IsRejection) :
    s.SameContents (s.handle caller request).2 := by
  cases request with
  | list path => exact run_reading_sameContents fun ctx => ctx.list path
  | stat path => exact run_reading_sameContents fun ctx => ctx.stat path
  | read path => exact run_reading_sameContents fun ctx => ctx.read path
  | makeCollection path =>
    simp only [handle, respond, Except.map_eq_error] at h ⊢
    exact run_rejected (Context.rejectsCleanly_makeCollection path) he h
  | put path data =>
    simp only [handle, respond, Except.map_eq_error] at h ⊢
    exact run_rejected (Context.rejectsCleanly_put path data) he h
  | delete path =>
    simp only [handle, respond, Except.map_eq_error] at h ⊢
    exact run_rejected (Context.rejectsCleanly_delete path) he h
  | rename source destination =>
    simp only [handle, respond, Except.map_eq_error] at h ⊢
    exact rename_rejected he h

/-- Renaming a page to one that is stored is turned down if the caller may not delete that one. -/
theorem handle_rejected_overwriting :
    let a := Page.inSpace "A" (.topLevel "Main")
    let b := Page.inSpace "B" (.topLevel "Main")
    let s := Service.new (.ofStore (.ofPages [a, b])) .standard
    let caller : Caller := ⟨.anonymous, ⟨"editor", fun right _ => right == .edit⟩⟩
    let request := Request.rename "/spaces/Main/A" "/spaces/Main/B"
    let e := ViewError.forbidden .overwrite (Entity.page b).label
    (s.handle caller request).1 = .error e ∧ e.IsRejection ∧
      s.SameContents (s.handle caller request).2 :=
  ⟨rfl, trivial, handle_rejected rfl trivial⟩

end Service

end WikiMount
