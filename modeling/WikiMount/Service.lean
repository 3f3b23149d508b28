import WikiMount.Change.Move
import WikiMount.Change.Remove
import WikiMount.Node.Content
import WikiMount.Node.Entry
import WikiMount.Node.Members
import WikiMount.Node.Resolve
import WikiMount.Session

/-! # The service
The service answers the requests that a front end makes on the mounted wiki: listing, looking at and
reading nodes, creating, uploading, deleting and renaming. Every request resolves its paths in a tree
of its own, in the session of its caller. -/

namespace WikiMount

namespace Context

/-- Looks a path up in a new tree. -/
def lookup (ctx : Context) (path : String) : Except ViewError (Nat × Tree) :=
  match ctx.resolvePath .new path with
  | (.ok id, t) => .ok (id, t)
  | (.error e, _) => .error e

/-- Looks up a path and then a second one in the same tree. -/
def lookupTwo (ctx : Context) (path other : String) : Except ViewError (Nat × Nat × Tree) :=
  match ctx.lookup path with
  | .error e => .error e
  | .ok (id, t) =>
    match ctx.resolvePath t other with
    | (.ok otherId, t) => .ok (id, otherId, t)
    | (.error e, _) => .error e

/-- Fails for a page or attachment that the caller may not view. -/
def requireReadable (ctx : Context) (kind : NodeKind) : Except ViewError Unit :=
  match kind.reference? with
  | some (.page page) => ctx.require .view (.page page)
  | some (.attachment a) => ctx.require .view (.attachment a)
  | _ => .ok ()

/-- The parent of a node that is to be changed. -/
def requireParent (t : Tree) (id : Nat) : Except ViewError Nat :=
  match (t.node id).parent with
  | some parent => .ok parent
  | none => .error (.methodNotAllowed .rootIsFixed)

/-- The entries of a collection. -/
def list (ctx : Context) (path : String) : Except ViewError (List Entry) := do
  let (id, t) ← ctx.lookup path
  if !(t.kind id).isCollection then .error (.badRequest (.notACollection path))
  let (members, t) := ctx.members t id
  return members.map t.entry

/-- When the page of a node was created and last updated, for pages and wiki files. -/
def times (ctx : Context) (t : Tree) (id : Nat) : Except ViewError (Option Nat × Option Nat) :=
  if (t.kind id).documentPage?.isSome then
    (t.document ctx.repository id).map fun d => (some d.createdAt, some d.updatedAt)
  else .ok (none, none)

/-- The number of bytes of a file. -/
def fileSize (ctx : Context) (t : Tree) (id : Nat) : Except ViewError (Option Nat) :=
  if (t.kind id).isCollection then .ok none
  else (ctx.content t id).1.map fun data => some data.size

/-- What is known about the node at a path. -/
def stat (ctx : Context) (path : String) : Except ViewError Stat := do
  let (id, t) ← ctx.lookup path
  ctx.requireReadable (t.kind id)
  if ctx.isPresent t id then
    let (createdAt, updatedAt) ← ctx.times t id
    let size ← ctx.fileSize t id
    return ⟨t.entry id, true, size, createdAt, updatedAt⟩
  else return ⟨t.entry id, false, none, none, none⟩

/-- The bytes of the file at a path. -/
def read (ctx : Context) (path : String) : Except ViewError Bytes := do
  let (id, t) ← ctx.lookup path
  ctx.requireReadable (t.kind id)
  (ctx.content t id).1

/-- A change that ends before anything is planned. -/
def refuse (ctx : Context) (e : ViewError) : Except ViewError Unit × Workspace :=
  (.error e, ctx.toWorkspace)

/-- Creates a directory: a space or a page. -/
def makeCollection (ctx : Context) (path : String) : Except ViewError Unit × Workspace :=
  match ctx.lookup path with
  | .error e => ctx.refuse e
  | .ok (id, t) =>
    if ctx.isPresent t id then ctx.refuse (.methodNotAllowed (.alreadyExists path))
    else
      match requireParent t id with
      | .error e => ctx.refuse e
      | .ok parent => (ctx.add t parent id none).result

/-- Creates or replaces a file. -/
def put (ctx : Context) (path : String) (data : Bytes) : Except ViewError Unit × Workspace :=
  match ctx.lookup path with
  | .error e => ctx.refuse e
  | .ok (id, t) =>
    if (t.kind id).isCollection then ctx.refuse (.methodNotAllowed (.isACollection path))
    else
      match requireParent t id with
      | .error e => ctx.refuse e
      | .ok parent => (ctx.add t parent id (some data)).result

/-- Removes the node at a path. -/
def delete (ctx : Context) (path : String) : Except ViewError Unit × Workspace :=
  match ctx.lookup path with
  | .error e => ctx.refuse e
  | .ok (id, t) =>
    if !(t.kind id).capabilities.canRemove then
      ctx.refuse (.methodNotAllowed (.notRemovable path))
    else
      match requireParent t id with
      | .error e => ctx.refuse e
      | .ok parent => (ctx.remove t parent id).result

/-- What a rename moves, by the kind of its source. -/
def moveSourceOf : NodeKind → MoveSource
  | .page _ => .page
  | .space _ _ => .space
  | .attachment _ => .attachment
  | _ => .unknown

/-- What a rename from a path moves. -/
def moveSourceAt (ctx : Context) (path : String) : Except ViewError MoveSource :=
  (ctx.lookup path).map fun found => moveSourceOf (found.2.kind found.1)

/-- Moves the node at one path to another path. -/
def rename (ctx : Context) (source destination : String) : Except ViewError Unit × Workspace :=
  match ctx.lookupTwo source destination with
  | .error e => ctx.refuse e
  | .ok (source, destination, t) => (ctx.move t source destination).result

end Context

/-- A request of a front end. -/
inductive Request
  | list (path : String)
  | stat (path : String)
  | read (path : String)
  | makeCollection (path : String)
  | put (path : String) (data : Bytes)
  | delete (path : String)
  | rename (source destination : String)
deriving DecidableEq

inductive Response
  | entries (entries : List Entry)
  | stat (stat : Stat)
  | content (data : Bytes)
  | done
deriving DecidableEq

structure Service where
  repository : Repository
  config : Config
  sessions : Sessions

namespace Service

def new (repository : Repository) (config : Config) : Service :=
  ⟨repository, config, .ofConfig config⟩

/-- Runs something in the session of a caller. -/
def run {α : Type} (s : Service) (caller : Caller) (intent : Intent)
    (f : Context → Except ViewError α × Workspace) : Except ViewError α × Service :=
  let (id, sessions) := s.sessions.getOrCreate caller.principal.name
  let (answer, w) := f ⟨⟨s.repository, some (sessions.storage id)⟩, caller, s.config, intent⟩
  (answer, { s with
    repository := w.repository
    sessions := sessions.setStorage id (w.scratch.getD .empty) })

/-- Something that only reads. -/
def reading {α : Type} (f : Context → Except ViewError α) (ctx : Context) :
    Except ViewError α × Workspace :=
  (f ctx, ctx.toWorkspace)

def rename (s : Service) (caller : Caller) (source destination : String) :
    Except ViewError Unit × Service :=
  match s.run caller (.move .unknown) (reading fun ctx => ctx.moveSourceAt source) with
  | (.error e, s) => (.error e, s)
  | (.ok moving, s) => s.run caller (.move moving) fun ctx => ctx.rename source destination

/-- The response that an answer makes. -/
def respond {α : Type} (response : α → Response) (result : Except ViewError α × Service) :
    Except ViewError Response × Service :=
  (result.1.map response, result.2)

/-- Answers a request. -/
def handle (s : Service) (caller : Caller) : Request → Except ViewError Response × Service
  | .list path => respond .entries (s.run caller .read (reading fun ctx => ctx.list path))
  | .stat path => respond .stat (s.run caller .read (reading fun ctx => ctx.stat path))
  | .read path => respond .content (s.run caller .read (reading fun ctx => ctx.read path))
  | .makeCollection path =>
    respond (fun _ => .done) (s.run caller .createCollection fun ctx => ctx.makeCollection path)
  | .put path data => respond (fun _ => .done) (s.run caller .createFile fun ctx => ctx.put path data)
  | .delete path => respond (fun _ => .done) (s.run caller .delete fun ctx => ctx.delete path)
  | .rename source destination => respond (fun _ => .done) (s.rename caller source destination)

end Service

end WikiMount
