import WikiMount.Context
import WikiMount.Export
import WikiMount.Node.Tree

/-! # What is behind a node
Whether the entity behind a node exists, and the bytes of the nodes that are files. -/

namespace WikiMount

namespace Context

/-- Whether a query was answered with something that satisfies `p`. -/
def finds {α : Type} (answer : Except StorageError (List α)) (p : α → Bool) : Bool :=
  match answer with
  | .ok l => l.any p
  | .error _ => false

/-- Whether the entity behind a node exists. -/
def isPresent (ctx : Context) (t : Tree) (id : Nat) : Bool :=
  match t.kind id with
  | .root | .baseView _ | .orphans => true
  | .space s _ => ctx.repository.hasSpace s
  | .pageGroup s group => finds (ctx.repository.pagesBeginning s group.key) fun _ => true
  | .attachmentGroup s group => finds (ctx.repository.pagesWithFiles s) fun p => group.holds p.name
  | .page p | .wikiFile p _ => ctx.repository.hasPage p
  | .attachment a => finds (ctx.repository.files a.page) (· == a.file)
  | .scratch _ => ctx.scratch.any (·.contains (t.path id))

/-- The bytes of a document in one of its formats; a page that was never saved has none. -/
def exported (d : Document) (format : FileFormat) : Except ViewError Bytes :=
  if d.isNew then .error (.badRequest (.missingPage d.reference))
  else
    match format with
    | .text => .ok d.content.toUTF8
    | .xml => .ok d.xml.toUTF8

/-- The bytes of a scratch file. -/
def scratchContent (ctx : Context) (path : String) : Except ViewError Bytes :=
  match ctx.requireScratch with
  | .error e => .error e
  | .ok scratch =>
    match scratch.read? path with
    | some data => .ok data
    | none => .error (.badRequest (.missingFile path))

/-- The bytes of a file node. A wiki file keeps the document it was read from. -/
def content (ctx : Context) (t : Tree) (id : Nat) : Except ViewError Bytes × Tree :=
  match t.kind id with
  | .wikiFile _ format =>
    match t.fetch ctx.repository id with
    | (.ok d, t) => (exported d format, t)
    | (.error e, t) => (.error e, t)
  | .attachment a => (viewed (ctx.repository.content a), t)
  | .scratch _ => (ctx.scratchContent (t.path id), t)
  | _ => (.error (.badRequest (.isADirectory (t.path id))), t)

end Context

end WikiMount
