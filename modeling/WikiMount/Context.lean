import WikiMount.Config
import WikiMount.Intent
import WikiMount.Scratch
import WikiMount.Storage.Repository

/-! # The context of a request
A request runs for a caller with a policy, reads and changes a workspace (the repository and the
caller's scratch files), and intends something with the paths it names. -/

namespace WikiMount

/-- The user a request runs for. The profile page of a user cannot be renamed by that user. -/
structure Principal where
  name : String
  profile : Option Page
deriving DecidableEq

namespace Principal

def anonymous : Principal := ⟨"anonymous", none⟩

def owns (p : Principal) (page : Page) : Bool := p.profile == some page

end Principal

structure Caller where
  principal : Principal
  policy : Policy

/-- What a request may change. Without a session there are no scratch files. -/
structure Workspace where
  repository : Repository
  scratch : Option Scratch
deriving DecidableEq

structure Context extends Workspace where
  caller : Caller
  config : Config
  intent : Intent

namespace Context

/-- The right that a policy is asked for: replacing a page takes the right to delete it if it is
stored, and every other replacement the right to edit. -/
def effectiveRight (ctx : Context) (right : Right) (target : Entity) : Right :=
  match right, target with
  | .overwrite, .page page => if ctx.repository.hasPage page then .delete else .edit
  | .overwrite, _ => .edit
  | right, _ => right

def holds (ctx : Context) (right : Right) (target : Entity) : Bool :=
  ctx.caller.policy.grants (ctx.effectiveRight right target) target

/-- Fails unless the caller holds the right. -/
def require (ctx : Context) (right : Right) (target : Entity) : Except ViewError Unit :=
  if ctx.holds right target then .ok () else .error (.forbidden right target.label)

/-- Fails on the first page that the caller does not hold the right on. -/
def requireAll (ctx : Context) (right : Right) : List Page → Except ViewError Unit
  | [] => .ok ()
  | page :: rest =>
    match ctx.require right (.page page) with
    | .error e => .error e
    | .ok () => ctx.requireAll right rest

def canView (ctx : Context) (page : Page) : Bool := ctx.holds .view (.page page)

/-- The caller's scratch files, which a request without a session does not have. -/
def requireScratch (ctx : Context) : Except ViewError Scratch :=
  match ctx.scratch with
  | some scratch => .ok scratch
  | none => .error (.badRequest .noSession)

end Context

/-- An answer of the storage as an answer of the view. -/
def viewed {α : Type} : Except StorageError α → Except ViewError α
  | .ok a => .ok a
  | .error e => .error (.ofStorage e)

end WikiMount
