import WikiMount.Access.Policy
import WikiMount.Path
import WikiMount.Reference.Text
import WikiMount.Storage.Error

/-! # View errors
A request ends in at most one error, of one of four kinds: the request cannot be honoured, a right is
missing, the operation is never allowed on its target, or the storage failed or an invariant broke.
Errors carry their cause; the wording of all of them is in this module. -/

namespace WikiMount

open Text (quoted)

/-- Why a request cannot be honoured. -/
inductive Refusal
  | invalidReference (cause : ReferenceError)
  | invalidPath (cause : PathError)
  | noChildren (path : String)
  | noBaseView (token : String)
  | unresolvable (token path : String)
  | invalidGroupToken (token : String)
  | invalidSpace (space : Space)
  | notACollection (path : String)
  | isADirectory (path : String)
  | missingPage (page : Page)
  | missingSpace (space : Space)
  | missingFile (path : String)
  | noSession
  | textNeedsContent
  | attachmentNeedsContent (attachment : Attachment)
  | textNotUtf8
  | cannotCreate (name path : String)
  | cannotRemove (name path : String)
  | cannotMove (path : String)
  | alreadyThere (path : String)
  | cannotMoveTo (source destination : String)
  | leavesParent (space : Space)
  | spaceExists (space : Space)
deriving DecidableEq

def Refusal.message : Refusal → String
  | .invalidReference cause => cause.message
  | .invalidPath cause => cause.message
  | .noChildren path => path ++ " has no children"
  | .noBaseView token => "no base view named " ++ quoted token
  | .unresolvable token path => quoted token ++ " cannot be resolved below " ++ path
  | .invalidGroupToken token => quoted token ++ " is not a valid group name"
  | .invalidSpace space => quoted space.text ++ " is not a valid space"
  | .notACollection path => path ++ " is not a collection"
  | .isADirectory path => path ++ " is a directory"
  | .missingPage page => page.text ++ " does not exist"
  | .missingSpace space => "space " ++ space.text ++ " does not exist"
  | .missingFile path => path ++ " does not exist"
  | .noSession => "no session to keep temporary files in"
  | .textNeedsContent => "wiki.txt needs content"
  | .attachmentNeedsContent attachment => attachment.text ++ " needs content"
  | .textNotUtf8 => "wiki.txt content is not UTF-8"
  | .cannotCreate name path => name ++ " cannot be created in " ++ path
  | .cannotRemove name path => name ++ " cannot be removed from " ++ path
  | .cannotMove path => path ++ " cannot be moved"
  | .alreadyThere path => path ++ " is already there"
  | .cannotMoveTo source destination => source ++ " cannot be moved to " ++ destination
  | .leavesParent space => space.text ++ " can only be renamed within its parent"
  | .spaceExists space => "space " ++ space.text ++ " already exists"

/-- Why an operation is never allowed on its target. -/
inductive Prohibition
  | contentOfCollection (path : String)
  | readOnlyExport
  | profilePage (page : Page) (user : String)
  | holdsProfilePage (space : Space) (user : String)
  | alreadyExists (path : String)
  | rootIsFixed
  | isACollection (path : String)
  | notRemovable (path : String)
  | stated (reason : String)
deriving DecidableEq

def Prohibition.message : Prohibition → String
  | .contentOfCollection path => path ++ " is a collection and cannot hold file content"
  | .readOnlyExport => "wiki.xml is read-only"
  | .profilePage page user => page.text ++ " is the profile page of " ++ user
  | .holdsProfilePage space user => space.text ++ " holds the profile page of " ++ user
  | .alreadyExists path => path ++ " already exists"
  | .rootIsFixed => "the root cannot be changed"
  | .isACollection path => path ++ " is a collection"
  | .notRemovable path => path ++ " cannot be removed"
  | .stated reason => reason

/-- A change made of several writes in a row. -/
inductive Batch
  | reparentChildren (page : Page)
  | deleteGroup (path : String)
  | deleteSpace (space : Space)
  | renameSpace (source destination : Space)
deriving DecidableEq

def Batch.label : Batch → String
  | .reparentChildren page => "re-parenting children of " ++ page.text
  | .deleteGroup path => "delete of " ++ path
  | .deleteSpace space => "delete of space " ++ space.text
  | .renameSpace source destination =>
    "rename of space " ++ source.text ++ " to " ++ destination.text

/-- A failure that is not the caller's. -/
inductive Fault
  | storage (cause : StorageError)
  | invalidGroupKey (key : String)
  | invalidGroupName (name : String)
  | nestedRoot
  | pageGroupMisplaced (space : Space)
  | attachmentGroupMisplaced (space : Space)
  | noDocument (name : String)
  | notHeldByPage (name : String)
  | groupWithoutDirectory
  | partiallyApplied (batch : Batch) (done total : Nat) (cause : StorageError)
deriving DecidableEq

def Fault.message : Fault → String
  | .storage cause => cause.message
  | .invalidGroupKey key => "invalid letter group key " ++ quoted key
  | .invalidGroupName name => "invalid letter group name " ++ quoted name
  | .nestedRoot => "the wiki root cannot be nested"
  | .pageGroupMisplaced space =>
    "letter group of " ++ space.text ++ " must sit in its pages directory"
  | .attachmentGroupMisplaced space =>
    "attachment group of " ++ space.text ++ " must sit in its attachments directory"
  | .noDocument name => name ++ " has no document"
  | .notHeldByPage name => "a page cannot hold " ++ name
  | .groupWithoutDirectory => "letter group without a directory"
  | .partiallyApplied batch done total cause =>
    batch.label ++ " partially applied " ++ toString done ++ " of " ++ toString total ++ ": " ++
      cause.message

inductive ViewError
  | badRequest (cause : Refusal)
  | forbidden (right : Right) (target : String)
  | methodNotAllowed (cause : Prohibition)
  | internal (cause : Fault)
deriving DecidableEq

namespace ViewError

def message : ViewError → String
  | .badRequest cause => "Bad request: " ++ cause.message
  | .forbidden right target => "Forbidden: no " ++ right.name ++ " right on " ++ target
  | .methodNotAllowed cause => "Method not allowed: " ++ cause.message
  | .internal cause => "Internal error: " ++ cause.message

/-- The status code that answers the request. -/
def status : ViewError → Nat
  | .badRequest _ => 400
  | .forbidden _ _ => 403
  | .methodNotAllowed _ => 405
  | .internal _ => 500

def ofReference (e : ReferenceError) : ViewError := .badRequest (.invalidReference e)

def ofPath (e : PathError) : ViewError := .badRequest (.invalidPath e)

/-- A reference that cannot address anything is the caller's fault, every other storage error is
not. -/
def ofStorage : StorageError → ViewError
  | .invalidReference cause => ofReference cause
  | e => .internal (.storage e)

end ViewError

end WikiMount
