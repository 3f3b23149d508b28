import WikiMount.Proofs.Change.Requests
import WikiMount.Proofs.Node.Chains
import WikiMount.Proofs.Session.Storages

/-!
# The scratch files of a service

Scratch storages are filled by requests only, and a request writes a scratch file under the path at which
it found a scratch node. So every file that a session keeps has the name of a scratch file. Opening and
dropping sessions leaves the storages as they are.
-/

namespace WikiMount

namespace Scratch

/-- Every file has the name of a scratch file. -/
def Tidy (s : Scratch) : Prop :=
  ∀ path, s.contains path = true → ReservedName.isScratch (fileName path) = true

variable {s : Scratch} {path name : String}

theorem contains_write {data : Bytes} {other : String} :
    (s.write path data).contains other = true ↔ other = path ∨ s.contains other = true := by
  simp only [contains, Scratch.write, SortedMap.contains, SortedMap.get?_insert,
    Std.LawfulEqCmp.compare_eq_iff_eq]
  split <;> simp_all

theorem contains_of_remove {other : String} (h : (s.remove path).contains other = true) :
    s.contains other = true := by
  simp only [contains, Scratch.remove, SortedMap.contains, SortedMap.get?_erase,
    Std.LawfulEqCmp.compare_eq_iff_eq] at h
  split at h
  · cases h
  · exact h

theorem mem_namesIn : name ∈ s.namesIn path ↔
    ∃ file, s.contains file = true ∧ directory file = path ∧ fileName file = name := by
  simp only [namesIn, List.mem_map, List.mem_filter, SortedMap.mem_keys, beq_iff_eq, and_assoc]
  exact Iff.rfl

theorem Tidy.empty : Scratch.empty.Tidy := fun _ h => by cases h

theorem Tidy.write (h : s.Tidy) (hpath : ReservedName.isScratch (fileName path) = true)
    (data : Bytes) : (s.write path data).Tidy := by
  intro other hother
  rcases contains_write.1 hother with rfl | hother
  · exact hpath
  · exact h other hother

theorem Tidy.remove (h : s.Tidy) (path : String) : (s.remove path).Tidy :=
  fun other hother => h other (contains_of_remove hother)

theorem Tidy.namesIn (h : s.Tidy) (hname : name ∈ s.namesIn path) :
    ReservedName.isScratch name = true := by
  obtain ⟨file, hfile, _, rfl⟩ := mem_namesIn.1 hname
  exact h file hfile

/-- A path that ends in a name without a slash, from its end. -/
theorem reverse_written (names : List String) (h : '/' ∉ name.toList) :
    (Path.written (names ++ [name])).toList.reverse.takeWhile (· != '/') = name.toList.reverse ∧
      (Path.written (names ++ [name])).toList.reverse.dropWhile (· != '/') =
        '/' :: (Path.written names).toList.reverse := by
  have hsplit : (Path.written (names ++ [name])).toList =
      (Path.written names).toList ++ '/' :: name.toList := by
    simp [Path.written_concat]
  have hname : ∀ c ∈ name.toList.reverse, (c != '/') = true := by
    intro c hc
    simp only [bne_iff_ne, ne_eq]
    rintro rfl
    exact h (List.mem_reverse.1 hc)
  rw [hsplit, List.reverse_append, List.reverse_cons, List.append_assoc,
    List.takeWhile_append_of_pos hname, List.dropWhile_append_of_pos hname]
  simp

/-- The last token of a path is the name of the file. -/
theorem fileName_written (names : List String) (h : '/' ∉ name.toList) :
    fileName (Path.written (names ++ [name])) = name := by
  rw [fileName, (reverse_written names h).1, List.reverse_reverse, String.ofList_toList]

end Scratch

/-! ## Requests -/

/-- The scratch files of a workspace are tidy. -/
def Workspace.Tidy (w : Workspace) : Prop := ∀ files, w.scratch = some files → files.Tidy

/-- A scratch file that is to be written has the name of one. -/
def Plan.Tidy : Plan → Prop
  | .writeScratch path _ => ReservedName.isScratch (Scratch.fileName path) = true
  | _ => True

theorem Plan.Tidy.execute {plan : Plan} {w : Workspace} (hplan : plan.Tidy) (h : w.Tidy) :
    (plan.execute w).2.Tidy := by
  cases plan with
  | writeScratch path data =>
    intro files hfiles
    obtain ⟨before, hbefore, rfl⟩ := Option.map_eq_some_iff.1 hfiles
    exact (h before hbefore).write hplan data
  | removeScratch path =>
    intro files hfiles
    obtain ⟨before, hbefore, rfl⟩ := Option.map_eq_some_iff.1 hfiles
    exact (h before hbefore).remove path
  | _ => exact h

/-- Carrying a plan out leaves the caller a storage. -/
theorem Plan.execute_scratch {plan : Plan} {w : Workspace} {files : Scratch}
    (hfiles : w.scratch = some files) : ∃ files', (plan.execute w).2.scratch = some files' := by
  cases plan with
  | writeScratch path data => exact ⟨files.write path data, congrArg (Option.map _) hfiles⟩
  | removeScratch path => exact ⟨files.remove path, congrArg (Option.map _) hfiles⟩
  | _ => exact ⟨files, hfiles⟩

namespace Context

variable {ctx : Context} {t : Tree} {id dir source destination : Nat} {plan : Plan} {name path : String}

/-- A scratch node that is found at a path is called by the last token of its path. -/
theorem lookup_scratch (hl : ctx.lookup path = .ok (id, t)) (hk : t.kind id = .scratch name) :
    ReservedName.isScratch (Scratch.fileName (t.path id)) = true := by
  obtain ⟨tokens, token, parent, mid, htokens, he, hs⟩ := lookup_last hl (by simp [hk])
  obtain ⟨kind, hdecodes, hinsert⟩ := step_eq_ok.1 hs
  have hkind : kind = .scratch name := (Tree.kind_insert_self hinsert).symm.trans hk
  have hslash : '/' ∉ token.toList := by
    have hvalid := Path.valid_of_tokens htokens token (by simp)
    exact (Path.isValidName_iff.1 hvalid).2.2.2.1
  rw [lookup_path hl htokens (by simp), Scratch.fileName_written tokens hslash]
  exact hdecodes.isScratch_iff.2 ⟨name, hkind⟩

theorem Adds.tidy {content : Option Bytes} (ht : t.AnswersFor dir id)
    (h : ctx.Adds t dir id content plan) : plan.Tidy := by
  cases h with
  | scratch hchild =>
    obtain ⟨ctx', path, hl⟩ := ht.found
    exact lookup_scratch hl hchild
  | _ => trivial

theorem Removes.tidy (h : ctx.Removes t dir id plan) : plan.Tidy := by
  cases h with
  | below => split <;> trivial
  | inSpace => split <;> trivial
  | _ => trivial

theorem Moves.tidy (h : ctx.Moves t source destination plan) : plan.Tidy := by
  cases h <;> trivial

theorem Carries.tidy {sort : Plan → Prop} {outcome : Except ViewError Unit × Workspace}
    (h : ctx.Carries sort outcome) (hsort : ∀ plan, sort plan → plan.Tidy)
    (hctx : ctx.toWorkspace.Tidy) : outcome.2.Tidy := by
  obtain ⟨e, _, rfl⟩ | ⟨plan, hplan, rfl⟩ := h
  · exact hctx
  · exact (hsort plan hplan).execute hctx

/-- A request of someone who has a storage leaves it there, whether it is refused or not. -/
theorem Carries.exists_scratch {sort : Plan → Prop} {outcome : Except ViewError Unit × Workspace}
    {files : Scratch} (h : ctx.Carries sort outcome) (hfiles : ctx.scratch = some files) :
    ∃ files', outcome.2.scratch = some files' := by
  obtain ⟨_, _, rfl⟩ | ⟨plan, _, rfl⟩ := h
  · exact ⟨files, hfiles⟩
  · exact plan.execute_scratch hfiles

theorem makeCollection_tidy (h : ctx.toWorkspace.Tidy) (path : String) :
    (ctx.makeCollection path).2.Tidy := by
  refine (ctx.makeCollection_carries path).tidy ?_ h
  rintro plan ⟨t, dir, id, ht, hadds⟩
  exact hadds.tidy ht

theorem put_tidy (h : ctx.toWorkspace.Tidy) (path : String) (data : Bytes) :
    (ctx.put path data).2.Tidy := by
  refine (ctx.put_carries path data).tidy ?_ h
  rintro plan ⟨t, dir, id, ht, hadds⟩
  exact hadds.tidy ht

theorem delete_tidy (h : ctx.toWorkspace.Tidy) (path : String) : (ctx.delete path).2.Tidy := by
  refine (ctx.delete_carries path).tidy ?_ h
  rintro plan ⟨t, dir, id, _, _, _, hremoves⟩
  exact hremoves.tidy

theorem rename_tidy (h : ctx.toWorkspace.Tidy) (path other : String) :
    (ctx.rename path other).2.Tidy := by
  refine (ctx.rename_carries path other).tidy ?_ h
  rintro plan ⟨t, source, destination, _, hmoves⟩
  exact hmoves.tidy

end Context

/-! ## Sessions -/

namespace Sessions

/-- Every storage is tidy, also those whose sessions have ended. -/
def Tidy (s : Sessions) : Prop := ∀ id, (s.storage id).Tidy

theorem Tidy.ofConfig (c : Config) : (Sessions.ofConfig c).Tidy := fun _ => .empty

end Sessions

/-! ## Services -/

namespace Service

/-- What becomes of a new service as it answers requests, time passes, and the repository is changed
by others. -/
inductive Serving : Service → Prop
  | new (repository : Repository) (config : Config) : Serving (.new repository config)
  | handle {s : Service} (caller : Caller) (request : Request) (h : Serving s) :
      Serving (s.handle caller request).2
  | advance {s : Service} (seconds nanoseconds : Nat) (h : Serving s) :
      Serving { s with sessions := s.sessions.advance seconds nanoseconds }
  | purge {s : Service} (h : Serving s) : Serving { s with sessions := s.sessions.purge.2 }
  | store {s : Service} (repository : Repository) (h : Serving s) :
      Serving { s with repository := repository }

variable {s : Service} {caller : Caller}

theorem context_tidy (h : s.sessions.Tidy) (caller : Caller) (intent : Intent) :
    (s.context caller intent).toWorkspace.Tidy := by
  have hscratch : (s.context caller intent).scratch =
      some ((s.sessions.getOrCreate caller.principal.name).2.storage
        (s.sessions.getOrCreate caller.principal.name).1) := rfl
  intro files hfiles
  rw [hscratch, Sessions.storage_getOrCreate] at hfiles
  exact Option.some.inj hfiles ▸ h _

/-- What holds of every storage, and of the files that a request leaves, holds of every storage after
it. -/
theorem run_storages {α : Type} {intent : Intent} {f : Context → Except ViewError α × Workspace}
    {I : Scratch → Prop} (hempty : I .empty) (h : ∀ n, I (s.sessions.storage n))
    (hf : ∀ files, (f (s.context caller intent)).2.scratch = some files → I files) (n : Nat) :
    I ((s.run caller intent f).2.sessions.storage n) := by
  rw [run_sessions, Sessions.storage_setStorage]
  split
  · cases hfiles : (f (s.context caller intent)).2.scratch with
    | none => exact hempty
    | some files => exact hf files hfiles
  · rw [Sessions.storage_getOrCreate]
    exact h n

theorem run_tidy {α : Type} {intent : Intent} {f : Context → Except ViewError α × Workspace}
    (h : s.sessions.Tidy) (hf : (f (s.context caller intent)).2.Tidy) :
    (s.run caller intent f).2.sessions.Tidy :=
  run_storages .empty h hf

theorem reading_tidy {α : Type} {intent : Intent} {f : Context → Except ViewError α}
    (h : s.sessions.Tidy) : (s.run caller intent (reading f)).2.sessions.Tidy :=
  run_tidy h (context_tidy h caller intent)

theorem rename_tidy (h : s.sessions.Tidy) (caller : Caller) (path other : String) :
    (s.rename caller path other).2.sessions.Tidy := by
  have hlook : (s.run caller (.move .unknown) (reading fun ctx =>
      ctx.moveSourceAt path)).2.sessions.Tidy := reading_tidy h
  simp only [rename]
  split
  next e s' hrun =>
    rw [hrun] at hlook
    exact hlook
  next moving s' hrun =>
    rw [hrun] at hlook
    exact run_tidy hlook (Context.rename_tidy (context_tidy hlook caller _) path other)

/-- The sessions of a service keep scratch files only. -/
theorem Serving.tidy (h : s.Serving) : s.sessions.Tidy := by
  induction h with
  | new repository config => exact .ofConfig config
  | handle caller request _ ih =>
    cases request with
    | list path =>
      simp only [Service.handle, respond]
      exact reading_tidy ih
    | stat path =>
      simp only [Service.handle, respond]
      exact reading_tidy ih
    | read path =>
      simp only [Service.handle, respond]
      exact reading_tidy ih
    | makeCollection path =>
      simp only [Service.handle, respond]
      refine run_tidy ih ?_
      exact Context.makeCollection_tidy (context_tidy ih caller .createCollection) path
    | put path data =>
      simp only [Service.handle, respond]
      refine run_tidy ih ?_
      exact Context.put_tidy (context_tidy ih caller .createFile) path data
    | delete path =>
      simp only [Service.handle, respond]
      refine run_tidy ih ?_
      exact Context.delete_tidy (context_tidy ih caller .delete) path
    | rename path other =>
      simp only [Service.handle, respond]
      exact rename_tidy ih caller path other
  | advance seconds nanoseconds _ ih => exact ih
  | purge _ ih => exact ih
  | store repository _ ih => exact ih

/-- A request changes no scratch files but those of its caller. -/
theorem run_storage {α : Type} {intent : Intent} {f : Context → Except ViewError α × Workspace} {n : Nat}
    (hn : n ≠ (s.sessions.getOrCreate caller.principal.name).1) :
    (s.run caller intent f).2.sessions.storage n = s.sessions.storage n := by
  rw [run_sessions, Sessions.storage_setStorage, if_neg fun h => hn h.1.symm,
    Sessions.storage_getOrCreate]

/-- While the clock stands still the next request of a caller finds what the last one has left. -/
theorem run_context {α : Type} {intent : Intent} {f : Context → Except ViewError α × Workspace}
    {files : Scratch} (h : s.sessions.Sound) (next : Intent)
    (hfiles : (f (s.context caller intent)).2.scratch = some files) :
    ((s.run caller intent f).2.context caller next).toWorkspace = (f (s.context caller intent)).2 := by
  have hlt := h.storage_lt caller.principal.name
  have hstorage : (s.run caller intent f).2.sessions.storage
      (s.sessions.getOrCreate caller.principal.name).1 = files := by
    rw [run_sessions, Sessions.storage_setStorage, if_pos ⟨rfl, hlt⟩, hfiles]
    rfl
  have hagain : ((s.run caller intent f).2.sessions.getOrCreate caller.principal.name).1 =
      (s.sessions.getOrCreate caller.principal.name).1 := by
    rw [run_sessions]
    exact h.getOrCreate_again _ _ _
  simp only [context, Sessions.storage_getOrCreate, hagain, hstorage, run_repository, ← hfiles]

/-- The same of a request that is refused or carries out a plan. -/
theorem run_carried {intent : Intent} {f : Context → Except ViewError Unit × Workspace}
    {sort : Plan → Prop} (h : s.sessions.Sound) (next : Intent)
    (hf : (s.context caller intent).Carries sort (f (s.context caller intent))) :
    ((s.run caller intent f).2.context caller next).toWorkspace =
      (f (s.context caller intent)).2 := by
  obtain ⟨_, hfiles⟩ := hf.exists_scratch rfl
  exact run_context h next hfiles

end Service

end WikiMount
