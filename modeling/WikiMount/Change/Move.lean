import WikiMount.Change.Plan

/-! # Moving nodes
Pages move to other pages, spaces to new names within their parent, and attachments to other
attachments. The caller's own profile page stays where it is. -/

namespace WikiMount

namespace Context

/-- Plans to rename a page. Its children follow it, and a page that is its own parent stays so. -/
def planMovePage (ctx : Context) (source destination : Page) : Except ViewError Plan := do
  ctx.require .edit (.page source)
  let space ← destination.requireSpace.mapError ViewError.ofReference
  if !ctx.repository.hasSpace space then .error (.badRequest (.missingSpace space))
  if ctx.caller.principal.owns source then
    .error (.methodNotAllowed (.profilePage source ctx.caller.principal.name))
  ctx.require .overwrite (.page destination)
  let children ← viewed (ctx.repository.childrenOf source)
  let others := children.filter (· != source)
  ctx.requireAll .edit others
  return .renamePage source destination
    (others ++ if children.contains source then [destination] else [])

/-- Checks one page of a space that is going to be renamed. -/
def checkCarried (ctx : Context) (space : Space) (page : Page) : Except ViewError Unit :=
  match ctx.require .overwrite (.page page) with
  | .error e => .error e
  | .ok () =>
    if ctx.caller.principal.owns page then
      .error (.methodNotAllowed (.holdsProfilePage space ctx.caller.principal.name))
    else .ok ()

/-- Fails on the first page that may not be carried into another space. -/
def checkAllCarried (ctx : Context) (space : Space) : List Page → Except ViewError Unit
  | [] => .ok ()
  | page :: rest =>
    match ctx.checkCarried space page with
    | .error e => .error e
    | .ok () => ctx.checkAllCarried space rest

/-- Plans to carry the pages of a space over to a space that does not exist yet. -/
def planMoveSpace (ctx : Context) (source destination : Space) : Except ViewError Plan := do
  if ctx.repository.hasSpace destination then .error (.badRequest (.spaceExists destination))
  ctx.require .edit (.space destination)
  let pages ← viewed (ctx.repository.pagesIn source)
  ctx.checkAllCarried source pages
  return .batch (.renameSpace source destination)
    (pages.map fun page => .write (.rename page (page.movedTo destination)))

/-- Plans to move an attachment between pages that the caller may edit. -/
def planMoveAttachment (ctx : Context) (source destination : Attachment) :
    Except ViewError Plan := do
  ctx.require .edit (.page source.page)
  ctx.require .edit (.page destination.page)
  return .write (.move source destination)

/-- Whether two nodes sit in the same directory. -/
def sameDirectory (t : Tree) (a b : Nat) : Bool :=
  match t.semanticParent? a, t.semanticParent? b with
  | some a, some b => t.kind a == t.kind b
  | _, _ => false

/-- Plans to move a node to another one. -/
def planMove (ctx : Context) (t : Tree) (source destination : Nat) : Except ViewError Plan :=
  if !(t.kind source).capabilities.canMove then
    .error (.badRequest (.cannotMove (t.path source)))
  else if t.kind source = t.kind destination then
    .error (.badRequest (.alreadyThere (t.path source)))
  else
    match t.kind source, t.kind destination with
    | .page page, .page other => ctx.planMovePage page other
    | .space space .pages, .space other .pages =>
      if sameDirectory t source destination then ctx.planMoveSpace space other
      else .error (.badRequest (.leavesParent space))
    | .attachment a, .attachment other => ctx.planMoveAttachment a other
    | _, _ => .error (.badRequest (.cannotMoveTo (t.path source) (t.path destination)))

/-- Moves a node to another one. -/
def move (ctx : Context) (t : Tree) (source destination : Nat) : Outcome :=
  ctx.carryOut t (ctx.planMove t source destination) [source, destination]

end Context

end WikiMount
