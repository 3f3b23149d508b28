import WikiMount.Text.Quoted

/-! # Request paths
A path is a list of tokens between slashes. Slashes at both ends carry no meaning; between them every
token must be a valid name: not empty, not `.` or `..`, and free of slashes and NUL. -/

namespace WikiMount

/-- Why a path has no tokens. -/
inductive PathError
  | invalidPath (reason : String)
  | invalidComponent (name : String)
deriving DecidableEq

namespace PathError

def emptyComponent : PathError := .invalidPath "Path contains empty component"

def relativeComponent : PathError :=
  .invalidPath "Relative path components (. or ..) are not supported"

def message : PathError → String
  | .invalidPath reason => "Invalid path: " ++ reason
  | .invalidComponent name => "Invalid component: " ++ Text.quoted name

end PathError

namespace Path

def isValidName (name : String) : Bool :=
  name != "" && name != "." && name != ".." && !name.toList.contains '/' && !name.toList.contains '\x00'

/-- Drops the slashes at both ends. -/
def trim (cs : List Char) : List Char :=
  ((cs.dropWhile (· == '/')).reverse.dropWhile (· == '/')).reverse

def checkToken (token : String) : Except PathError String :=
  if token = "" then .error .emptyComponent
  else if token = "." ∨ token = ".." then .error .relativeComponent
  else if isValidName token then .ok token
  else .error (.invalidComponent token)

/-- The tokens of a path; the first token that is no valid name is reported. -/
def tokens (path : String) : Except PathError (List String) :=
  match trim path.toList with
  | [] => .ok []
  | cs => ((cs.splitOn '/').map String.ofList).mapM checkToken

/-- The tokens of a path before the last one, and the last one, which the root path does not
have. -/
def splitLast (path : String) : Except PathError (Option (List String × String)) :=
  (tokens path).map fun tokens => tokens.getLast?.map fun last => (tokens.dropLast, last)

end Path

end WikiMount
