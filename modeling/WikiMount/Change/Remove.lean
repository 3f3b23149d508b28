import WikiMount.Change.Add

/-! # Removing members
Removing a wiki file checks rights and changes nothing: it lives as long as its page. Removing a
letter group or a space removes its pages one by one. -/

namespace WikiMount

namespace Context

def planScratchRemove (ctx : Context) (path : String) : Except ViewError Plan :=
  match ctx.requireScratch with
  | .error e => .error e
  | .ok scratch =>
    if scratch.contains path then .ok (.removeScratch path)
    else .error (.badRequest (.missingFile path))

/-- Plans to delete a page that the caller may delete, if it is stored. -/
def planDelete (ctx : Context) (page : Page) : Except ViewError Plan :=
  match ctx.require .delete (.page page) with
  | .error e => .error e
  | .ok () => .ok (if ctx.repository.hasPage page then .write (.delete page) else .nothing)

/-- Plans to delete pages, all of which the caller must be allowed to delete. -/
def planDeleteAll (ctx : Context) (batch : Batch) (answer : Except StorageError (List Page)) :
    Except ViewError Plan := do
  let pages ← viewed answer
  ctx.requireAll .delete pages
  return .batch batch (pages.map fun page => .write (.delete page))

/-- Plans to remove a node below a page, which the caller must be allowed to edit. -/
def planRemoveFromPage (ctx : Context) (t : Tree) (page : Page) (child : Nat) :
    Except ViewError Plan := do
  ctx.require .edit (.page page)
  match t.kind child with
  | .scratch _ => ctx.planScratchRemove (t.path child)
  | .wikiFile _ _ => (ctx.require .delete (.page page)).map fun _ => .nothing
  | .attachment a => .ok (.write (.detach a))
  | .page removed => ctx.planDelete removed
  | other => .error (.internal (.notHeldByPage other.displayName))

/-- Plans to remove a node below one that is not a letter group. -/
def planRemoveFrom (ctx : Context) (t : Tree) (node child : Nat) : Except ViewError Plan :=
  match t.kind node, t.kind child with
  | .page page, _ => ctx.planRemoveFromPage t page child
  | _, .scratch _ => ctx.planScratchRemove (t.path child)
  | .space _ .pages, .page page => ctx.planDelete page
  | .space space .pages, .pageGroup _ group =>
    ctx.planDeleteAll (.deleteGroup (t.path child)) (ctx.repository.pagesBeginning space group.key)
  | .baseView .pages, .space space _ =>
    ctx.planDeleteAll (.deleteSpace space) (ctx.repository.pagesIn space)
  | _, other => .error (.badRequest (.cannotRemove other.displayName (t.path node)))

/-- Plans to remove a node from its parent. -/
def planRemove (ctx : Context) (t : Tree) (node child : Nat) : Except ViewError Plan :=
  match t.directory node child with
  | .error e => .error e
  | .ok directory => ctx.planRemoveFrom t directory child

/-- Removes a node from its parent. -/
def remove (ctx : Context) (t : Tree) (node child : Nat) : Outcome :=
  ctx.carryOut t (ctx.planRemove t node child) [child]

end Context

end WikiMount
