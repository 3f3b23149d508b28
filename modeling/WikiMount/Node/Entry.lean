import WikiMount.Node.Tree

/-! # Directory entries
An entry is the flat description of a node that is handed out in listings. -/

namespace WikiMount

inductive EntryKind
  | view
  | space
  | letterGroup
  | page
  | attachment
  | wikiFile
  | tempFile
deriving DecidableEq

def NodeKind.entryKind : NodeKind → EntryKind
  | .root | .baseView _ | .orphans => .view
  | .space _ _ => .space
  | .pageGroup _ _ | .attachmentGroup _ _ => .letterGroup
  | .page _ => .page
  | .attachment _ => .attachment
  | .wikiFile _ _ => .wikiFile
  | .scratch _ => .tempFile

structure Entry where
  name : String
  path : String
  kind : EntryKind
  isCollection : Bool
  reference : Option Entity
deriving DecidableEq

def Tree.entry (t : Tree) (id : Nat) : Entry where
  name := (t.kind id).displayName
  path := t.path id
  kind := (t.kind id).entryKind
  isCollection := (t.kind id).isCollection
  reference := (t.kind id).reference?

/-- What is known about a node. -/
structure Stat where
  entry : Entry
  isPresent : Bool
  /-- The number of bytes of a file that exists. -/
  size : Option Nat
  createdAt : Option Nat
  updatedAt : Option Nat
deriving DecidableEq

end WikiMount
