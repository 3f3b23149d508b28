import WikiMount.Context
import WikiMount.Node.Tree

/-! # Plans of changes
A change is planned before anything is written: whoever plans it makes every check that the change
needs. Carrying a plan out can fail only in the storage. Where a plan is a batch of writes, a failure
stops the batch where it is: what was written stays written and the error says how far it got. -/

namespace WikiMount

/-- One item of a batch. -/
inductive BatchItem
  | write (write : Write)
  | reparent (child parent : Page)
deriving DecidableEq

/-- What a permitted change is going to do. -/
inductive Plan
  | nothing
  | writeScratch (path : String) (data : Bytes)
  | removeScratch (path : String)
  | write (write : Write)
  /-- Saves the document of a node with another content. -/
  | saveText (node : Nat) (document : Document) (text : String)
  | batch (batch : Batch) (items : List BatchItem)
  /-- Renames a page and then makes the new page the parent of some pages. -/
  | renamePage (source destination : Page) (children : List Page)
deriving DecidableEq

namespace Repository

def apply (r : Repository) : BatchItem → Except StorageError Unit × Repository
  | .write w => r.write w
  | .reparent child parent =>
    match r.document child with
    | .error e => (.error e, r)
    | .ok d => r.write (.save { d with parent := some parent })

/-- Applies items in order up to the first failure; `done` items came before them. -/
def applyFrom (r : Repository) (batch : Batch) (done total : Nat) :
    List BatchItem → Except ViewError Unit × Repository
  | [] => (.ok (), r)
  | item :: rest =>
    match r.apply item with
    | (.ok (), r) => r.applyFrom batch (done + 1) total rest
    | (.error e, r) => (.error (.internal (.partiallyApplied batch done total e)), r)

def applyBatch (r : Repository) (batch : Batch) (items : List BatchItem) :
    Except ViewError Unit × Repository :=
  r.applyFrom batch 0 items.length items

/-- A single write, answered as the view answers. -/
def perform (r : Repository) (w : Write) : Except ViewError Unit × Repository :=
  match r.write w with
  | (answer, r) => (viewed answer, r)

/-- Renames a page and re-parents its children. -/
def renamePage (r : Repository) (source destination : Page) (children : List Page) :
    Except ViewError Unit × Repository :=
  match r.perform (.rename source destination) with
  | (.error e, r) => (.error e, r)
  | (.ok (), r) =>
    r.applyBatch (.reparentChildren source) (children.map fun child => .reparent child destination)

end Repository

namespace Workspace

def withRepository (w : Workspace) (done : Except ViewError Unit × Repository) :
    Except ViewError Unit × Workspace :=
  (done.1, { w with repository := done.2 })

end Workspace

/-- Carries a plan out. -/
def Plan.execute (plan : Plan) (w : Workspace) : Except ViewError Unit × Workspace :=
  match plan with
  | .nothing => (.ok (), w)
  | .writeScratch path data => (.ok (), { w with scratch := w.scratch.map (·.write path data) })
  | .removeScratch path => (.ok (), { w with scratch := w.scratch.map (·.remove path) })
  | .write change => w.withRepository (w.repository.perform change)
  | .saveText _ document text =>
    w.withRepository (w.repository.perform (.save { document with content := text }))
  | .batch task items => w.withRepository (w.repository.applyBatch task items)
  | .renamePage source destination children =>
    w.withRepository (w.repository.renamePage source destination children)

/-- What a change leaves behind. -/
structure Outcome where
  answer : Except ViewError Unit
  workspace : Workspace
  tree : Tree

/-- The answer and the workspace of a change whose tree is not needed any more. -/
def Outcome.result (o : Outcome) : Except ViewError Unit × Workspace := (o.answer, o.workspace)

namespace Plan

/-- The tree with the document that was read for the plan. -/
def rememberIn (plan : Plan) (t : Tree) : Tree :=
  match plan with
  | .saveText node document _ => t.remember node document
  | _ => t

/-- The tree without the document that the plan has made out of date. -/
def forgetIn (plan : Plan) (t : Tree) : Tree :=
  match plan with
  | .saveText node _ _ => t.forget node
  | _ => t

end Plan

/-- Carries a plan out if there is one; after a success the nodes in `touched` have no document any
more. -/
def Context.carryOut (ctx : Context) (t : Tree) (plan : Except ViewError Plan) (touched : List Nat) :
    Outcome :=
  match plan with
  | .error e => ⟨.error e, ctx.toWorkspace, t⟩
  | .ok plan =>
    let t := plan.rememberIn t
    match plan.execute ctx.toWorkspace with
    | (.error e, w) => ⟨.error e, w, t⟩
    | (.ok (), w) => ⟨.ok (), w, touched.foldl Tree.forget (plan.forgetIn t)⟩

end WikiMount
