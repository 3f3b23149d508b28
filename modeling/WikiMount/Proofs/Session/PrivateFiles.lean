import WikiMount.Proofs.Change.NewDirectories
import WikiMount.Proofs.Change.Uploads
import WikiMount.Proofs.Session.Recency

/-!
# Scratch files are private

What a request does to a scratch file is told by the tokens of its path: an upload and a new directory
leave their content under the path that is written from the tokens, a removal takes the file away, and
nothing of it reaches the repository. Only the user who has been given a storage is ever given it again, so
what is read from it is what this user has left in it last.
-/

namespace WikiMount

/-- The tokens of the path of a scratch file. -/
def Path.NamesScratch (names : List String) : Prop :=
  ∃ name, names.getLast? = some name ∧ ReservedName.isScratch name = true

theorem Path.NamesScratch.ne_nil {names : List String} (h : Path.NamesScratch names) : names ≠ [] := by
  rintro rfl
  obtain ⟨_, hlast, _⟩ := h
  cases hlast

/-- Different tokens make different paths. -/
theorem Path.written_injective {path path' : String} {names names' : List String}
    (h : Path.tokens path = .ok names) (h' : Path.tokens path' = .ok names') (hne : names ≠ [])
    (hne' : names' ≠ []) (heq : Path.written names = Path.written names') : names = names' := by
  have hread := Path.tokens_written hne (Path.valid_of_tokens h)
  rw [heq, Path.tokens_written hne' (Path.valid_of_tokens h')] at hread
  exact (Except.ok.inj hread).symm

/-! ## Scratch files in one request -/

/-- The plan that leaves a scratch file with some content or takes it away. -/
def Plan.leaving (file : String) : Option Bytes → Plan
  | some data => .writeScratch file data
  | none => .removeScratch file

theorem Plan.leaving_execute (file : String) (change : Option Bytes) {w : Workspace} {files : Scratch}
    (hfiles : w.scratch = some files) :
    ((leaving file change).execute w).1 = .ok () ∧
      ((leaving file change).execute w).2.repository = w.repository ∧
      ∃ files', ((leaving file change).execute w).2.scratch = some files' ∧
        ∀ other, files'.read? other = if other = file then change else files.read? other := by
  cases change with
  | some data =>
    refine ⟨rfl, rfl, files.write file data, congrArg (Option.map _) hfiles, fun other => ?_⟩
    exact Scratch.read?_write files file other data
  | none =>
    refine ⟨rfl, rfl, files.remove file, congrArg (Option.map _) hfiles, fun other => ?_⟩
    exact Scratch.read?_remove files file other

namespace Context

variable {ctx : Context} {t t' : Tree} {id : Nat} {path : String} {names : List String} {data : Bytes}

/-- The path leads to a scratch file. -/
def FindsScratch (ctx : Context) (path : String) : Prop :=
  ∃ id t name, ctx.lookup path = .ok (id, t) ∧ t.kind id = .scratch name

/-- The last token alone decides whether a path leads to a scratch file. -/
theorem resolvePath_scratch (hr : ctx.resolvePath t path = (.ok id, t'))
    (htokens : Path.tokens path = .ok names) (hnames : Path.NamesScratch names) :
    ∃ name, t'.kind id = .scratch name := by
  obtain ⟨tokens, htokens', hr⟩ := resolvePath_eq_ok_iff.1 hr
  obtain rfl := Except.ok.inj (htokens.symm.trans htokens')
  obtain ⟨first, last, rfl⟩ := (List.eq_nil_or_concat names).resolve_left hnames.ne_nil
  obtain ⟨name, hlast, hscratch⟩ := hnames
  rw [List.concat_eq_append] at hr hlast
  rw [List.getLast?_concat] at hlast
  obtain rfl := Option.some.inj hlast
  obtain ⟨_, _, _, hs⟩ := resolve_concat_eq_ok.1 hr
  obtain ⟨kind, hdecodes, hinsert⟩ := step_eq_ok.1 hs
  rw [Tree.kind_insert_self hinsert]
  exact hdecodes.isScratch_iff.1 hscratch

theorem FindsScratch.tokens (h : ctx.FindsScratch path) :
    ∃ names, Path.tokens path = .ok names ∧ Path.NamesScratch names := by
  obtain ⟨id, t, name, hl, hk⟩ := h
  obtain ⟨tokens, token, parent, mid, htokens, _, hs⟩ := lookup_last hl (by simp [hk])
  obtain ⟨kind, hdecodes, hinsert⟩ := step_eq_ok.1 hs
  have hkind : kind = .scratch name := (Tree.kind_insert_self hinsert).symm.trans hk
  exact ⟨_, htokens, token, List.getLast?_concat, hdecodes.isScratch_iff.2 ⟨name, hkind⟩⟩

/-- Plans for nodes that are not scratch files leave the scratch files alone. -/
theorem Adds.files {dir : Nat} {content : Option Bytes} {plan : Plan}
    (h : ctx.Adds t dir id content plan) :
    (∃ name, t.kind id = .scratch name ∧ plan = .writeScratch (t.path id) (content.getD .empty)) ∨
      (∀ name, t.kind id ≠ .scratch name) ∧ ∀ w, (plan.execute w).2.scratch = w.scratch := by
  cases h with
  | scratch hchild => exact .inl ⟨_, hchild, rfl⟩
  | below _ hchild | text _ hchild | attach _ hchild | inSpace _ hchild | home _ hchild =>
    exact .inr ⟨by simp [hchild], fun _ => rfl⟩

theorem Removes.files {dir : Nat} {plan : Plan} (h : ctx.Removes t dir id plan) :
    (∃ name, t.kind id = .scratch name ∧ plan = .removeScratch (t.path id)) ∨
      (∀ name, t.kind id ≠ .scratch name) ∧ ∀ w, (plan.execute w).2.scratch = w.scratch := by
  cases h with
  | scratch hchild => exact .inl ⟨_, hchild, rfl⟩
  | below _ hchild | inSpace _ hchild =>
    refine .inr ⟨by simp [hchild], fun _ => ?_⟩
    split <;> rfl
  | wikiFile _ hchild | attachment _ hchild | group _ hchild | space _ hchild =>
    exact .inr ⟨by simp [hchild], fun _ => rfl⟩

/-- A request for a change at a path is refused or changes the scratch file there, if the path is that of
one, and leaves the scratch files as they are otherwise. -/
def ChangesFile (ctx : Context) (path : String) (change : Option Bytes)
    (outcome : Except ViewError Unit × Workspace) : Prop :=
  (∃ names, Path.tokens path = .ok names ∧ Path.NamesScratch names ∧
      outcome = (Plan.leaving (Path.written names) change).execute ctx.toWorkspace) ∨
    outcome.2.scratch = ctx.scratch ∧ ∀ names, Path.tokens path = .ok names →
      Path.NamesScratch names → ∃ e, outcome = ctx.refuse e

variable {outcome : Except ViewError Unit × Workspace} {change : Option Bytes}

theorem changesFile_refuse (e : ViewError) : ctx.ChangesFile path change (ctx.refuse e) :=
  .inr ⟨rfl, fun _ _ _ => ⟨e, rfl⟩⟩

theorem changesFile_execute {plan : Plan} (hl : ctx.lookup path = .ok (id, t))
    (h : (∃ name, t.kind id = .scratch name ∧ plan = .leaving (t.path id) change) ∨
      (∀ name, t.kind id ≠ .scratch name) ∧ ∀ w, (plan.execute w).2.scratch = w.scratch) :
    ctx.ChangesFile path change (plan.execute ctx.toWorkspace) := by
  obtain ⟨name, hk, rfl⟩ | ⟨hk, hplan⟩ := h
  · obtain ⟨names, htokens, hnames⟩ := FindsScratch.tokens ⟨id, t, name, hl, hk⟩
    exact .inl ⟨names, htokens, hnames, by rw [lookup_path hl htokens hnames.ne_nil]⟩
  · refine .inr ⟨hplan _, fun names htokens hnames => ?_⟩
    obtain ⟨name, hscratch⟩ := resolvePath_scratch (lookup_eq_ok_iff.1 hl) htokens hnames
    exact absurd hscratch (hk name)

theorem add_changesFile (content : Option Bytes) (hl : ctx.lookup path = .ok (id, t)) :
    ctx.ChangesFile path (some (content.getD .empty))
      (match requireParent t id with
        | .error e => ctx.refuse e
        | .ok parent => (ctx.add t parent id content).result) := by
  split
  next e _ => exact changesFile_refuse e
  next parent _ =>
    cases hplan : ctx.planAdd t parent id content with
    | error e =>
      rw [add, hplan]
      exact changesFile_refuse e
    | ok plan =>
      obtain ⟨dir, _, hadds⟩ := planAdd_eq_ok hplan
      rw [add, hplan, carryOut_result]
      exact changesFile_execute hl hadds.files

theorem put_changesFile (ctx : Context) (path : String) (data : Bytes) :
    ctx.ChangesFile path (some data) (ctx.put path data) := by
  simp only [put]
  split
  next e _ => exact changesFile_refuse e
  next id t hl =>
    split
    · exact changesFile_refuse _
    · exact add_changesFile (some data) hl

theorem makeCollection_changesFile (ctx : Context) (path : String) :
    ctx.ChangesFile path (some .empty) (ctx.makeCollection path) := by
  simp only [makeCollection]
  split
  next e _ => exact changesFile_refuse e
  next id t hl =>
    split
    · exact changesFile_refuse _
    · exact add_changesFile none hl

theorem delete_changesFile (ctx : Context) (path : String) :
    ctx.ChangesFile path none (ctx.delete path) := by
  obtain ⟨e, _, he⟩ | ⟨plan, ⟨t, dir, id, hl, _, _, hremoves⟩, heq⟩ := ctx.delete_carries path
  · rw [he]
    exact changesFile_refuse e
  · rw [heq]
    exact changesFile_execute hl hremoves.files

/-- A scratch file is never changed in the repository. -/
theorem ChangesFile.repository (h : ctx.ChangesFile path change outcome)
    (htokens : Path.tokens path = .ok names) (hnames : Path.NamesScratch names) :
    outcome.2.repository = ctx.repository := by
  obtain ⟨_, _, _, rfl⟩ | ⟨_, hrefused⟩ := h
  · cases change <;> rfl
  · obtain ⟨e, rfl⟩ := hrefused names htokens hnames
    rfl

theorem lookupTwo_scratch {other : String} {destination : Nat}
    (hl : ctx.lookupTwo path other = .ok (id, destination, t)) :
    (Path.tokens path = .ok names → Path.NamesScratch names → ∃ name, t.kind id = .scratch name) ∧
      (Path.tokens other = .ok names → Path.NamesScratch names →
        ∃ name, t.kind destination = .scratch name) := by
  obtain ⟨t₁, hfirst, hsecond⟩ := lookupTwo_eq_ok hl
  obtain ⟨ht₁, hlt⟩ := lookup_resolved hfirst
  obtain ⟨_, hext, _⟩ := resolvePath_resolved ht₁ hsecond
  refine ⟨fun htokens hnames => ?_, resolvePath_scratch hsecond⟩
  rw [Tree.kind, hext.node _ hlt]
  exact resolvePath_scratch (lookup_eq_ok_iff.1 hfirst) htokens hnames

/-- Only pages, spaces and attachments are moved. -/
theorem Moves.not_scratch {source destination : Nat} {plan : Plan}
    (h : ctx.Moves t source destination plan) :
    (∀ name, t.kind source ≠ .scratch name ∧ t.kind destination ≠ .scratch name) ∧
      ∀ w, (plan.execute w).2.scratch = w.scratch := by
  cases h with
  | page hsource hdestination | space hsource hdestination | attachment hsource hdestination =>
    exact ⟨fun name => by simp [hsource, hdestination], fun _ => rfl⟩

theorem rename_scratch (ctx : Context) (path other : String) :
    (ctx.rename path other).2.scratch = ctx.scratch := by
  obtain ⟨e, _, he⟩ | ⟨plan, ⟨t, source, destination, _, hmoves⟩, heq⟩ := ctx.rename_carries path other
  · rw [he]
    rfl
  · rw [heq]
    exact hmoves.not_scratch.2 _

/-- What stands under a path after a request for a change. -/
theorem ChangesFile.read? {files : Scratch} {own : String} (h : ctx.ChangesFile path change outcome)
    (hfiles : ctx.scratch = some files) (hown : Path.tokens own = .ok names)
    (hnames : Path.NamesScratch names) :
    ∃ files', outcome.2.scratch = some files' ∧
      (Path.tokens path = .ok names → outcome.1 = .ok () →
        files'.read? (Path.written names) = change) ∧
      (¬(Path.tokens path = .ok names ∧ outcome.1 = .ok ()) →
        files'.read? (Path.written names) = files.read? (Path.written names)) := by
  obtain ⟨names', htokens', hnames', rfl⟩ | ⟨hscratch, hrefused⟩ := h
  · obtain ⟨hok, _, files', hfiles', hread⟩ :=
      Plan.leaving_execute (Path.written names') change hfiles
    refine ⟨files', hfiles', fun htokens _ => ?_, fun hnot => ?_⟩
    · obtain rfl := Except.ok.inj (htokens'.symm.trans htokens)
      rw [hread, if_pos rfl]
    · refine (hread _).trans (if_neg fun heq => hnot ⟨?_, hok⟩)
      rw [Path.written_injective hown htokens' hnames.ne_nil hnames'.ne_nil heq]
      exact htokens'
  · refine ⟨files, hscratch.trans hfiles, fun htokens hok => ?_, fun _ => rfl⟩
    obtain ⟨e, rfl⟩ := hrefused names htokens hnames
    cases hok

/-- A scratch file is read by whoever may resolve its path. -/
theorem read_scratch {files : Scratch} (hfiles : ctx.scratch = some files) (h : ctx.FindsScratch path)
    (htokens : Path.tokens path = .ok names) :
    ctx.read path = match files.read? (Path.written names) with
      | some data => .ok data
      | none => .error (.badRequest (.missingFile (Path.written names))) := by
  obtain ⟨names', htokens', hnames⟩ := h.tokens
  obtain rfl := Except.ok.inj (htokens'.symm.trans htokens)
  obtain ⟨id, t, name, hl, hk⟩ := h
  have hcontent : (ctx.content t id).1 = ctx.scratchContent (Path.written names') := by
    rw [← lookup_path hl htokens hnames.ne_nil]
    simp only [content, hk]
  cases hread : files.read? (Path.written names') <;>
    simp only [read, hl, bind, Except.bind, requireReadable, hk, NodeKind.reference?, hcontent,
      scratchContent, requireScratch, hfiles, hread]

end Context

/-! ## Scratch files of a service -/

/-- The paths that a request is about. -/
def Request.paths : Request → List String
  | .list path | .stat path | .read path | .makeCollection path | .put path _ | .delete path => [path]
  | .rename source destination => [source, destination]

/-- The path at which a request makes a change, with what it leaves there if that is the path of a scratch
file. -/
def Request.change? : Request → Option (String × Option Bytes)
  | .put path data => some (path, some data)
  | .makeCollection path => some (path, some .empty)
  | .delete path => some (path, none)
  | _ => none

/-- What a request leaves at some tokens, where they are those of a scratch file. -/
def Request.Leaves (request : Request) (names : List String) (change : Option Bytes) : Prop :=
  ∃ path, request.change? = some (path, change) ∧ Path.tokens path = .ok names

namespace Service

variable {s : Service} {caller : Caller} {names : List String} {n : Nat}

/-- The storage that a request of a user is given. -/
def storageOf (s : Service) (user : String) : Nat := (s.sessions.getOrCreate user).1

theorem context_scratch (s : Service) (caller : Caller) (intent : Intent) :
    (s.context caller intent).scratch =
      some (s.sessions.storage (s.storageOf caller.principal.name)) := by
  simp only [context, Sessions.storage_getOrCreate, storageOf]

/-- What leaves the scratch files of its caller alone leaves those of everyone alone. -/
theorem run_storage_of_kept {α : Type} {intent : Intent} {f : Context → Except ViewError α × Workspace}
    (hf : (f (s.context caller intent)).2.scratch = (s.context caller intent).scratch) :
    (s.run caller intent f).2.sessions.storage n = s.sessions.storage n := by
  rw [run_sessions, hf, context_scratch, Option.getD_some, storageOf,
    ← s.sessions.storage_getOrCreate caller.principal.name, Sessions.storage_setStorage_self,
    Sessions.storage_getOrCreate]

theorem rename_storage (s : Service) (caller : Caller) (path other : String) (n : Nat) :
    (s.rename caller path other).2.sessions.storage n = s.sessions.storage n := by
  have hlook : (s.run caller (.move .unknown) (reading fun ctx =>
      ctx.moveSourceAt path)).2.sessions.storage n = s.sessions.storage n := run_storage_of_kept rfl
  simp only [rename]
  split
  next e s' hrun =>
    rw [hrun] at hlook
    exact hlook
  next moving s' hrun =>
    rw [hrun] at hlook
    exact (run_storage_of_kept (Context.rename_scratch _ path other)).trans hlook

/-- A request changes no storage but the one it is given. -/
theorem handle_storage_of_ne {request : Request} (hn : n ≠ s.storageOf caller.principal.name) :
    (s.handle caller request).2.sessions.storage n = s.sessions.storage n := by
  cases request with
  | rename path other => exact rename_storage s caller path other n
  | _ =>
    simp only [handle, respond]
    exact run_storage hn

/-- What stands at some tokens, in the storage that a request is given, after a change that it asks for. -/
theorem run_file {request : Request} {intent : Intent} {f : Context → Except ViewError Unit × Workspace}
    {path own : String} {change : Option Bytes} (hs : s.sessions.Sound)
    (hown : Path.tokens own = .ok names) (hnames : Path.NamesScratch names)
    (hchange : request.change? = some (path, change))
    (hf : (s.context caller intent).ChangesFile path change (f (s.context caller intent))) :
    let result := respond (fun _ => .done) (s.run caller intent f)
    let files := result.2.sessions.storage (s.storageOf caller.principal.name)
    (∀ change, request.Leaves names change → result.1 = .ok .done →
      files.read? (Path.written names) = change) ∧
    ((∀ change, request.Leaves names change → result.1 ≠ .ok .done) →
      files.read? (Path.written names) = (s.sessions.storage
        (s.storageOf caller.principal.name)).read? (Path.written names)) := by
  intro result files
  obtain ⟨files', hfiles', hleft, hkept⟩ := hf.read? (s.context_scratch caller intent) hown hnames
  have hfiles : files = files' := by
    simp only [files, result, respond, run_sessions, Sessions.storage_setStorage]
    rw [if_pos ⟨rfl, hs.storage_lt caller.principal.name⟩, hfiles', Option.getD_some]
  rw [hfiles]
  refine ⟨fun change' hleaves hok => ?_, fun hnot => hkept ?_⟩
  · obtain ⟨path', hchange', htokens⟩ := hleaves
    obtain ⟨rfl, rfl⟩ := Prod.mk.inj (Option.some.inj (hchange.symm.trans hchange'))
    exact hleft htokens (respond_done hok)
  · rintro ⟨htokens, hok⟩
    have hrun : (s.run caller intent f).1 = .ok () := hok
    exact hnot change ⟨path, hchange, htokens⟩ (by simp only [result, respond, hrun, Except.map])

/-- What stands at some tokens, in the storage that a request is given, after the request. -/
theorem handle_file {own : String} (hs : s.sessions.Sound) (hown : Path.tokens own = .ok names)
    (hnames : Path.NamesScratch names) (caller : Caller) (request : Request) :
    let files := (s.handle caller request).2.sessions.storage (s.storageOf caller.principal.name)
    (∀ change, request.Leaves names change → (s.handle caller request).1 = .ok .done →
      files.read? (Path.written names) = change) ∧
    ((∀ change, request.Leaves names change → (s.handle caller request).1 ≠ .ok .done) →
      files.read? (Path.written names) = (s.sessions.storage
        (s.storageOf caller.principal.name)).read? (Path.written names)) := by
  intro files
  cases request with
  | put path data =>
    exact run_file hs hown hnames rfl (Context.put_changesFile _ path data)
  | makeCollection path =>
    exact run_file hs hown hnames rfl (Context.makeCollection_changesFile _ path)
  | delete path => exact run_file hs hown hnames rfl (Context.delete_changesFile _ path)
  | rename path other =>
    refine ⟨?_, fun _ => ?_⟩
    · rintro change ⟨_, hchange, _⟩
      cases hchange
    · simp only [files, handle, respond, rename_storage]
  | _ =>
    refine ⟨?_, fun _ => ?_⟩
    · rintro change ⟨_, hchange, _⟩
      cases hchange
    · simp only [files, handle, respond]
      rw [run_storage_of_kept rfl]

/-- No request about a scratch file changes the repository. -/
theorem handle_repository_of_scratch {request : Request} {path : String} (hpath : path ∈ request.paths)
    (htokens : Path.tokens path = .ok names) (hnames : Path.NamesScratch names) :
    (s.handle caller request).2.repository = s.repository := by
  cases request with
  | put own data =>
    obtain rfl := List.mem_singleton.1 hpath
    exact (Context.put_changesFile _ path data).repository htokens hnames
  | makeCollection own =>
    obtain rfl := List.mem_singleton.1 hpath
    exact (Context.makeCollection_changesFile _ path).repository htokens hnames
  | delete own =>
    obtain rfl := List.mem_singleton.1 hpath
    exact (Context.delete_changesFile _ path).repository htokens hnames
  | rename source destination =>
    obtain ⟨_, hkept⟩ | ⟨ctx, t, i, j, plan, _, _, hrenamed, _, hmoves, _⟩ :=
      s.rename_carries caller source destination
    · exact hkept
    · simp only [renamed?] at hrenamed
      split at hrenamed
      · cases hrenamed
      split at hrenamed
      · cases hrenamed
      next hl =>
        obtain ⟨hsource, hdestination⟩ := Prod.mk.inj (Option.some.inj hrenamed)
        obtain ⟨hfirst, hsecond⟩ := Context.lookupTwo_scratch hl
        rcases List.mem_pair.1 hpath with rfl | rfl
        · obtain ⟨name, hk⟩ := hfirst htokens hnames
          exact absurd (hsource ▸ hk) (hmoves.not_scratch.1 name).1
        · obtain ⟨name, hk⟩ := hsecond htokens hnames
          exact absurd (hdestination ▸ hk) (hmoves.not_scratch.1 name).2
  | _ => rfl

/-! ## Runs -/

/-- What happens to a service: someone makes a request, time passes, expired sessions are dropped, and
others change the repository. -/
inductive Event
  | request (caller : Caller) (request : Request)
  | advance (seconds nanoseconds : Nat)
  | purge
  | store (repository : Repository)

def next (s : Service) : Event → Service
  | .request caller request => (s.handle caller request).2
  | .advance seconds nanoseconds => { s with sessions := s.sessions.advance seconds nanoseconds }
  | .purge => { s with sessions := s.sessions.purge.2 }
  | .store repository => { s with repository := repository }

def through (s : Service) (events : List Event) : Service := events.foldl next s

variable {events before since : List Event} {user : String}

@[simp] theorem through_nil (s : Service) : s.through [] = s := rfl

@[simp] theorem through_cons (s : Service) (e : Event) (events : List Event) :
    s.through (e :: events) = (s.next e).through events := rfl

@[simp] theorem through_append (s : Service) (before since : List Event) :
    s.through (before ++ since) = (s.through before).through since := by
  rw [through, List.foldl_append, through, through]

theorem run_acts {α : Type} (s : Service) (caller : Caller) (intent : Intent)
    (f : Context → Except ViewError α × Workspace) :
    ∃ acts, (s.run caller intent f).2.sessions =
      (s.sessions.getOrCreate caller.principal.name).2.after acts :=
  ⟨[.write _ _], rfl⟩

/-- Each request begins with the session of its caller. -/
theorem handle_acts (s : Service) (caller : Caller) (request : Request) :
    ∃ acts, (s.handle caller request).2.sessions =
      (s.sessions.getOrCreate caller.principal.name).2.after acts := by
  cases request with
  | rename path other =>
    obtain ⟨acts, hlook⟩ := s.run_acts caller (.move .unknown) (reading fun ctx => ctx.moveSourceAt path)
    simp only [handle, respond, rename]
    split
    next e s' hrun =>
      rw [hrun] at hlook
      exact ⟨acts, hlook⟩
    next moving s' hrun =>
      rw [hrun] at hlook
      obtain ⟨acts', hmove⟩ := s'.run_acts caller (.move moving) fun ctx => ctx.rename path other
      refine ⟨acts ++ .request caller.principal.name :: acts', ?_⟩
      rw [hmove, Sessions.after_append, ← hlook]
      rfl
  | _ =>
    simp only [handle, respond]
    exact s.run_acts caller _ _

theorem through_acts (s : Service) (events : List Event) :
    ∃ acts, (s.through events).sessions = s.sessions.after acts := by
  induction events generalizing s with
  | nil => exact ⟨[], rfl⟩
  | cons e events ih =>
    have hnext : ∃ acts, (s.next e).sessions = s.sessions.after acts := by
      cases e with
      | request caller request =>
        obtain ⟨acts, hacts⟩ := s.handle_acts caller request
        exact ⟨.request caller.principal.name :: acts, hacts⟩
      | advance seconds nanoseconds => exact ⟨[.advance seconds nanoseconds], rfl⟩
      | purge => exact ⟨[.purge], rfl⟩
      | store repository => exact ⟨[], rfl⟩
    obtain ⟨acts, hacts⟩ := hnext
    obtain ⟨acts', hacts'⟩ := ih (s.next e)
    exact ⟨acts ++ acts', by rw [through_cons, hacts', hacts, Sessions.after_append]⟩

/-- Whoever makes a request has a storage that has been handed out, and keeps it. -/
theorem sound_through (h : s.sessions.Sound) (events : List Event) :
    (s.through events).sessions.Sound := by
  obtain ⟨acts, hacts⟩ := s.through_acts events
  rw [hacts]
  exact h.after acts

/-- What becomes of sessions from a request on. -/
theorem request_acts (s : Service) (caller : Caller) (request : Request) (events : List Event) :
    ∃ acts, (s.through (.request caller request :: events)).sessions =
      (s.sessions.getOrCreate caller.principal.name).2.after acts := by
  obtain ⟨acts, hacts⟩ := s.handle_acts caller request
  obtain ⟨acts', hacts'⟩ := (s.handle caller request).2.through_acts events
  exact ⟨acts ++ acts', by rw [through_cons, next, hacts', hacts, Sessions.after_append]⟩

/-- Every session of the service has a storage of its user. -/
theorem exists_owner (repository : Repository) (config : Config) (events : List Event) :
    ∃ owner, ((new repository config).through events).sessions.Owned owner := by
  obtain ⟨acts, hacts⟩ := (new repository config).through_acts events
  have hnew : (new repository config).sessions.Owned fun _ => "" := fun _ h => nomatch h
  obtain ⟨owner, _, howned, _⟩ := hnew.after acts
  exact ⟨owner, hacts ▸ howned⟩

/-- Two users are never given the same storage. -/
theorem user_eq {owner : Nat → String} (h : s.sessions.Owned owner) (request : Request)
    (events : List Event)
    (hsame : (s.through (.request caller request :: events)).storageOf user =
      s.storageOf caller.principal.name) : user = caller.principal.name := by
  obtain ⟨acts, hacts⟩ := s.request_acts caller request events
  rw [storageOf, hacts] at hsame
  exact h.user_eq acts hsame

theorem storageOf_le {owner : Nat → String} (h : s.sessions.Owned owner) (caller : Caller)
    (request : Request) (events : List Event) :
    s.storageOf caller.principal.name ≤
      (s.through (.request caller request :: events)).storageOf caller.principal.name := by
  obtain ⟨acts, hacts⟩ := s.request_acts caller request events
  rw [storageOf, storageOf, hacts]
  exact h.getOrCreate_le caller.principal.name acts

/-- A storage that a user is given at two times is the user's all the time between, as no earlier one is
given again. -/
theorem storageOf_between {owner owner' : Nat → String} {caller' : Caller} {request : Request}
    {between : List Event} (request' : Request) (rest : List Event) (h : s.sessions.Owned owner)
    (h' : (s.through (.request caller request :: between)).sessions.Owned owner')
    (huser : caller'.principal.name = caller.principal.name)
    (hgiven : (s.through (.request caller request :: between ++ .request caller' request' :: rest)).storageOf
      caller.principal.name = s.storageOf caller.principal.name) :
    (s.through (.request caller request :: between)).storageOf caller.principal.name =
      s.storageOf caller.principal.name := by
  rw [through_append] at hgiven
  have hlater := storageOf_le h' caller' request' rest
  rw [huser, hgiven] at hlater
  exact le_antisymm hlater (storageOf_le h caller request between)

/-- The storage of another user's session is out of reach. -/
theorem handle_storage_of_session {owner : Nat → String} (h : s.sessions.Owned owner)
    {session : Session} {request : Request} (hsession : session ∈ s.sessions.live)
    (huser : caller.principal.name ≠ session.user) :
    (s.handle caller request).2.sessions.storage session.storage =
      s.sessions.storage session.storage := by
  obtain ⟨hlt, howner⟩ := h session hsession
  obtain ⟨owner', hagrees, _, hcaller, _⟩ := h.getOrCreate caller.principal.name
  refine handle_storage_of_ne fun hsame => huser ?_
  rw [← hcaller, ← howner, ← hagrees _ hlt, hsame]
  rfl

/-! ## What was left last -/

/-- An event leaves something at some tokens in a storage. -/
def Event.Leaves (e : Event) (s : Service) (n : Nat) (names : List String) (change : Option Bytes) :
    Prop :=
  ∃ caller request, e = .request caller request ∧ s.storageOf caller.principal.name = n ∧
    (s.handle caller request).1 = .ok .done ∧ request.Leaves names change

theorem next_file {e : Event} {own : String} (hs : s.sessions.Sound) (hown : Path.tokens own = .ok names)
    (hnames : Path.NamesScratch names) :
    (∀ change, e.Leaves s n names change →
      ((s.next e).sessions.storage n).read? (Path.written names) = change) ∧
    ((∀ change, ¬e.Leaves s n names change) →
      ((s.next e).sessions.storage n).read? (Path.written names) =
        (s.sessions.storage n).read? (Path.written names)) := by
  cases e with
  | request caller request =>
    obtain ⟨hleft, hkept⟩ := handle_file hs hown hnames caller request
    constructor
    · rintro change ⟨_, _, heq, rfl, hok, hleaves⟩
      cases heq
      exact hleft change hleaves hok
    · intro hnot
      by_cases hn : n = s.storageOf caller.principal.name
      · subst hn
        exact hkept fun change hleaves hok => hnot change ⟨caller, request, rfl, rfl, hok, hleaves⟩
      · rw [next, handle_storage_of_ne hn]
  | _ => exact ⟨fun _ ⟨_, _, heq, _⟩ => (nomatch heq), fun _ => rfl⟩

/-- What stands at some tokens stays there until the next request that leaves something there. -/
theorem through_file {own : String} (hs : s.sessions.Sound) (hown : Path.tokens own = .ok names)
    (hnames : Path.NamesScratch names)
    (h : ∀ between e rest, events = between ++ e :: rest →
      ∀ change, ¬e.Leaves (s.through between) n names change) :
    ((s.through events).sessions.storage n).read? (Path.written names) =
      (s.sessions.storage n).read? (Path.written names) := by
  induction events generalizing s with
  | nil => rfl
  | cons e events ih =>
    have hnext : (s.next e).sessions.Sound := sound_through hs [e]
    rw [through_cons, ih hnext fun between e' rest heq => h (e :: between) e' rest (by rw [heq]; rfl)]
    exact (next_file hs hown hnames).2 (h [] e events rfl)

/-- Whatever stands at some tokens has been left there, and nothing has been left there since. -/
theorem exists_leaves {own : String} {data : Bytes} (hs : s.sessions.Sound)
    (hown : Path.tokens own = .ok names) (hnames : Path.NamesScratch names)
    (hnew : s.sessions.storage n = .empty)
    (hread : ((s.through events).sessions.storage n).read? (Path.written names) = some data) :
    ∃ before e since, events = before ++ e :: since ∧
      e.Leaves (s.through before) n names (some data) ∧
      ∀ between e' rest, since = between ++ e' :: rest →
        ∀ change, ¬e'.Leaves (s.through (before ++ e :: between)) n names change := by
  induction events using List.reverseRecOn with
  | nil =>
    rw [through_nil, hnew] at hread
    cases hread
  | append_singleton events e ih =>
    rw [through_append] at hread
    obtain ⟨hleft, hkept⟩ := next_file (e := e) (n := n) (sound_through hs events) hown hnames
    by_cases hleaves : ∃ change, e.Leaves (s.through events) n names change
    · obtain ⟨change, hleaves⟩ := hleaves
      obtain rfl : change = some data := (hleft change hleaves).symm.trans hread
      exact ⟨events, e, [], rfl, hleaves, fun between e' rest heq => by simp at heq⟩
    · have hnot : ∀ change, ¬e.Leaves (s.through events) n names change :=
        fun change hchange => hleaves ⟨change, hchange⟩
      obtain ⟨before, first, since, rfl, hfirst, hlater⟩ := ih ((hkept hnot).symm.trans hread)
      refine ⟨before, first, since ++ [e], by simp, hfirst, fun between e' rest heq => ?_⟩
      obtain rfl | ⟨rest', last, rfl⟩ := List.eq_nil_or_concat rest
      · obtain ⟨rfl, hlast⟩ := List.append_inj' heq rfl
        obtain rfl := (List.cons.inj hlast).1
        exact hnot
      · rw [List.concat_eq_append, ← List.cons_append, ← List.append_assoc] at heq
        exact hlater between e' rest' (List.append_inj' heq rfl).1

/-- The user has successfully put some bytes at some tokens, or a new directory if there are none, into the
storage that the user has now. It is the latest time that the user did so, and the user has not
successfully removed what is there since. -/
def LastPut (s : Service) (events : List Event) (user : String) (names : List String) (data : Bytes) :
    Prop :=
  ∃ before caller request since, events = before ++ .request caller request :: since ∧
    caller.principal.name = user ∧ ((s.through before).handle caller request).1 = .ok .done ∧
    request.Leaves names (some data) ∧
    (s.through before).storageOf user = (s.through events).storageOf user ∧
    ∀ between caller' request' rest, since = between ++ .request caller' request' :: rest →
      caller'.principal.name = user →
      let s' := s.through (before ++ .request caller request :: between)
      (s'.handle caller' request').1 = .ok .done →
      ¬request'.Leaves names none ∧ ∀ data', request'.Leaves names (some data') →
        s'.storageOf user ≠ (s.through events).storageOf user

/-- In the storage that a user has now, the user alone has left something. -/
theorem lastPut_iff {repository : Repository} {config : Config} {data : Bytes} :
    let s := new repository config
    s.LastPut events user names data ↔ ∃ before e since, events = before ++ e :: since ∧
      e.Leaves (s.through before) ((s.through events).storageOf user) names (some data) ∧
      ∀ between e' rest, since = between ++ e' :: rest → ∀ change,
        ¬e'.Leaves (s.through (before ++ e :: between)) ((s.through events).storageOf user) names
          change := by
  intro s
  constructor
  · rintro ⟨before, caller, request, since, rfl, rfl, hok, hleaves, hsame, hlast⟩
    refine ⟨before, _, since, rfl, ⟨caller, request, rfl, hsame, hok, hleaves⟩, ?_⟩
    rintro between _ rest rfl change ⟨caller', request', rfl, hgiven, hok', hleaves'⟩
    obtain ⟨owner, howned⟩ :=
      exists_owner repository config (before ++ .request caller request :: between)
    have huser : caller.principal.name = caller'.principal.name := by
      refine user_eq howned request' rest ?_
      rw [← through_append]
      simpa using hgiven.symm
    obtain ⟨hnone, hsome⟩ := hlast between caller' request' rest rfl huser.symm hok'
    cases change with
    | none => exact hnone hleaves'
    | some data' => exact hsome data' hleaves' (huser ▸ hgiven)
  · rintro ⟨before, _, since, rfl, ⟨caller, request, rfl, hgiven, hok, hleaves⟩, hlast⟩
    obtain ⟨owner, howned⟩ := exists_owner repository config before
    obtain rfl : user = caller.principal.name := by
      refine user_eq howned request since ?_
      rw [← through_append]
      exact hgiven.symm
    refine ⟨before, caller, request, since, rfl, rfl, hok, hleaves, hgiven, ?_⟩
    rintro between caller' request' rest rfl huser s' hok'
    obtain ⟨owner', howned'⟩ :=
      exists_owner repository config (before ++ .request caller request :: between)
    have hbetween : s'.storageOf caller.principal.name =
        (s.through before).storageOf caller.principal.name := by
      rw [through_append] at howned'
      simp only [s', through_append]
      refine storageOf_between request' rest howned howned' huser ?_
      rw [List.cons_append, ← through_append]
      exact hgiven.symm
    have hnot : ∀ change, ¬request'.Leaves names change := fun change hleaves' =>
      hlast between _ rest rfl change
        ⟨caller', request', rfl, huser ▸ hbetween.trans hgiven, hok', hleaves'⟩
    exact ⟨hnot none, fun data' hleaves' => absurd hleaves' (hnot _)⟩

/-- No request about a scratch file changes the repository, and nobody's requests change what is in the
storage of another user. What a user reads at the path of a scratch file is what the same user has put there
last, into the storage that the user has now, and if there is nothing the file is missing. -/
theorem scratch_files_private (repository : Repository) (config : Config) (events : List Event)
    (user path : String) (names : List String) (hscratch : ∃ ctx : Context, ctx.FindsScratch path)
    (htokens : Path.tokens path = .ok names) :
    let s := new repository config
    let s' := s.through events
    (∀ caller request, path ∈ request.paths →
      (s'.handle caller request).2.repository = s'.repository) ∧
    (∀ caller request session, session ∈ s'.sessions.live → session.user = user →
      caller.principal.name ≠ user →
      (s'.handle caller request).2.sessions.storage session.storage =
        s'.sessions.storage session.storage) ∧
    ∀ caller, caller.principal.name = user → (s'.context caller .read).FindsScratch path →
      (∀ data, s.LastPut events user names data →
        (s'.handle caller (.read path)).1 = .ok (.content data)) ∧
      ((∀ data, ¬s.LastPut events user names data) →
        (s'.handle caller (.read path)).1 =
          .error (.badRequest (.missingFile (Path.written names)))) := by
  intro s s'
  obtain ⟨ctx, hfound⟩ := hscratch
  obtain ⟨names', htokens', hnames⟩ := hfound.tokens
  obtain rfl := Except.ok.inj (htokens'.symm.trans htokens)
  obtain ⟨owner, howned⟩ := exists_owner repository config events
  have hs : s.sessions.Sound := .ofConfig config
  refine ⟨fun caller request hpath => handle_repository_of_scratch hpath htokens hnames, ?_, ?_⟩
  · rintro caller request session hsession rfl huser
    exact handle_storage_of_session howned hsession huser
  · rintro caller rfl hfinds
    have hread := Context.read_scratch (s'.context_scratch caller .read) hfinds htokens
    rw [handle_read, hread]
    constructor
    · intro data hlast
      obtain ⟨before, e, since, hsplit, hleaves, hlater⟩ := lastPut_iff.1 hlast
      have hput := (next_file (sound_through hs before) htokens hnames).1 _ hleaves
      have hnext : ((s.through before).next e).sessions.Sound :=
        sound_through (sound_through hs before) [e]
      have hstill := through_file (n := s'.storageOf caller.principal.name) hnext htokens hnames
        fun between e' rest heq => by simpa using hlater between e' rest heq
      have hs' : ((s.through before).next e).through since = s' := by simp [s', hsplit]
      rw [hs'] at hstill
      rw [hstill.trans hput]
      rfl
    · intro hnone
      cases hfile : (s'.sessions.storage (s'.storageOf caller.principal.name)).read?
          (Path.written names') with
      | none => rfl
      | some data =>
        exact absurd (lastPut_iff.2 (exists_leaves hs htokens hnames rfl hfile)) (hnone data)

/-- Two users lock the same directory, and each finds the lock of their own. -/
theorem scratch_files_private_of_two :
    let s := new (.ofStore (.ofPages [])) .standard
    let alice : Caller := ⟨⟨"alice", none⟩, .allowAll⟩
    let bob : Caller := ⟨⟨"bob", none⟩, .allowAll⟩
    let path := "/spaces/.lock"
    let data : Bytes := ⟨#[1]⟩
    let s' := s.through
      [.request alice (.put path data), .request bob (.put path ⟨#[2]⟩), .advance 60 0]
    (∃ ctx : Context, ctx.FindsScratch path) ∧ Path.tokens path = .ok ["spaces", ".lock"] ∧
      (s'.handle alice (.read path)).1 = .ok (.content data) ∧
      (s'.handle bob (.delete path)).2.repository = s'.repository := by
  intro s alice bob path data s'
  let t : Tree := ⟨#[.root, ⟨.baseView .pages, "spaces", some 0, none⟩,
    ⟨.scratch ".lock", ".lock", some 1, none⟩]⟩
  have hfinds : (s'.context alice .read).FindsScratch path := by
    refine ⟨2, t, ".lock", ?_, rfl⟩
    dsimp only [path, t, alice, bob]
    rfl
  have htokens : Path.tokens path = .ok ["spaces", ".lock"] := by decide
  have hlast : s.LastPut [.request alice (.put path data), .request bob (.put path ⟨#[2]⟩),
      .advance 60 0] "alice" ["spaces", ".lock"] data := by
    have hok : (s.handle alice (.put path data)).1 = .ok .done := by
      dsimp only [s, alice, path, data]
      rfl
    have hsame : s.storageOf "alice" = s'.storageOf "alice" := by
      dsimp only [s, s', alice, bob, path, data]
      decide +kernel
    refine ⟨[], alice, _, _, rfl, rfl, hok, ⟨path, rfl, htokens⟩, hsame, ?_⟩
    rintro (_ | ⟨_, _ | ⟨_, _⟩⟩) caller request rest heq huser
    · obtain ⟨rfl, _⟩ := Event.request.inj (List.cons.inj heq).1
      simp [bob] at huser
    all_goals simp at heq
  obtain ⟨hrepository, _, hread⟩ := scratch_files_private (.ofStore (.ofPages [])) .standard
    [.request alice (.put path data), .request bob (.put path ⟨#[2]⟩), .advance 60 0] "alice" path
    ["spaces", ".lock"] ⟨_, hfinds⟩ htokens
  refine ⟨⟨_, hfinds⟩, htokens, (hread alice rfl hfinds).1 data hlast, ?_⟩
  dsimp only [s', s]
  exact hrepository bob (.delete path) (by simp [Request.paths])

end Service

end WikiMount
