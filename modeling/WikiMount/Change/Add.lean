import WikiMount.Change.Plan

/-! # Adding members
Creating pages and spaces and uploading files. A new page gets the configured placeholder as its
content, a new space its home page. -/

namespace WikiMount

namespace Context

/-- The document of a page to be created as a directory. -/
def placeholder (ctx : Context) (page : Page) : Except ViewError Document :=
  match ctx.repository.document page with
  | .error e => .error (.ofStorage e)
  | .ok d =>
    .ok { d with
      content := ctx.config.placeholder
      locale := if d.isNew then ctx.config.defaultLocale else d.locale }

/-- Plans to save the placeholder of a page that the caller may edit. -/
def planPage (ctx : Context) (page : Page) (parent : Document → Option Page) :
    Except ViewError Plan := do
  ctx.require .edit (.page page)
  let d ← ctx.placeholder page
  return .write (.save { d with parent := parent d })

def planScratchWrite (ctx : Context) (path : String) (content : Option Bytes) :
    Except ViewError Plan := do
  let _ ← ctx.requireScratch
  return .writeScratch path (content.getD .empty)

/-- Plans to put a new text into the page of a node. -/
def planText (ctx : Context) (t : Tree) (node : Nat) (content : Option Bytes) :
    Except ViewError Plan :=
  match content with
  | none => .error (.badRequest .textNeedsContent)
  | some data =>
    match String.fromUTF8? data with
    | none => .error (.badRequest .textNotUtf8)
    | some text => (t.document ctx.repository node).map fun d => .saveText node d text

/-- Plans to add a node below a page, which the caller must be allowed to edit. -/
def planAddToPage (ctx : Context) (t : Tree) (node : Nat) (page : Page) (child : Nat)
    (content : Option Bytes) : Except ViewError Plan := do
  ctx.require .edit (.page page)
  match t.kind child with
  | .scratch _ => ctx.planScratchWrite (t.path child) content
  | .page new => ctx.planPage new fun _ => some page
  | .wikiFile _ .xml => .error (.methodNotAllowed .readOnlyExport)
  | .wikiFile _ .text => ctx.planText t node content
  | .attachment a =>
    match content with
    | none => .error (.badRequest (.attachmentNeedsContent a))
    | some data => .ok (.write (.attach a data))
  | other => .error (.internal (.notHeldByPage other.displayName))

/-- Plans to add a node below one that is not a letter group. -/
def planAddTo (ctx : Context) (t : Tree) (node child : Nat) (content : Option Bytes) :
    Except ViewError Plan :=
  match t.kind node, t.kind child with
  | .page page, _ => ctx.planAddToPage t node page child content
  | _, .scratch _ => ctx.planScratchWrite (t.path child) content
  | .space _ .pages, .page page => ctx.planPage page Document.parent
  | .baseView .pages, .space space _ =>
    ctx.planPage (.inSpace ctx.config.homePage space) Document.parent
  | _, other => .error (.badRequest (.cannotCreate other.displayName (t.path node)))

end Context

/-- The node that answers for changes below a node: the directory of a letter group, any other node
itself. Scratch files stay where they are. -/
def Tree.directory (t : Tree) (node child : Nat) : Except ViewError Nat :=
  match t.kind node, t.kind child with
  | _, .scratch _ => .ok node
  | kind, _ =>
    if kind.isLetterGroup then
      match t.semanticParent? node with
      | some directory => .ok directory
      | none => .error (.internal .groupWithoutDirectory)
    else .ok node

namespace Context

/-- Plans to add a node to its parent. Content comes with uploads and not with new directories. -/
def planAdd (ctx : Context) (t : Tree) (node child : Nat) (content : Option Bytes) :
    Except ViewError Plan :=
  if content.isSome && (t.kind child).isCollection then
    .error (.methodNotAllowed (.contentOfCollection (t.path child)))
  else
    match t.directory node child with
    | .error e => .error e
    | .ok directory => ctx.planAddTo t directory child content

/-- Adds a node to its parent. -/
def add (ctx : Context) (t : Tree) (node child : Nat) (content : Option Bytes) : Outcome :=
  ctx.carryOut t (ctx.planAdd t node child content) [child]

end Context

end WikiMount
