/-! # What a request intends
Decoding the last token of a path depends on what the request is going to do with it: a name that
does not exist yet is a new attachment for an upload, a new page for a new directory, and an error
for a read. -/

namespace WikiMount

/-- What a rename moves; unknown while its source is being looked up. -/
inductive MoveSource
  | unknown
  | page
  | space
  | attachment
deriving DecidableEq

inductive Intent
  | read
  | createCollection
  | createFile
  | move (source : MoveSource)
  | delete
deriving DecidableEq

namespace Intent

def isCreateFile : Intent → Bool
  | .createFile => true
  | _ => false

def isCreateCollection : Intent → Bool
  | .createCollection => true
  | _ => false

def isMove : Intent → Bool
  | .move _ => true
  | _ => false

/-- Whether the request may name something that does not exist yet. -/
def isCreateOrMove : Intent → Bool
  | .createFile | .createCollection | .move _ => true
  | .read | .delete => false

def moveSource? : Intent → Option MoveSource
  | .move source => some source
  | _ => none

end Intent

end WikiMount
