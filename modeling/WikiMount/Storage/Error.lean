import WikiMount.Reference.Basic

/-! # Storage errors -/

namespace WikiMount

/-- Why the storage did not answer a query or perform a write. -/
inductive StorageError
  | notFound (name : String)
  | invalidReference (cause : ReferenceError)
  | backend (reason : String)
deriving DecidableEq

def StorageError.message : StorageError → String
  | .notFound name => "Not found: " ++ name
  | .invalidReference cause => "Invalid reference: " ++ cause.message
  | .backend reason => "Backend failure: " ++ reason

end WikiMount
