import WikiMount.LetterGroup

/-! # Kinds of nodes
A node of the tree is a base view, a space in one of the views, a letter group, a page, a file of a
page, or a scratch file. Its kind says under what name it is listed, what can be done with it, and
which entity is behind it. -/

namespace WikiMount

/-- The two base views that list spaces. -/
inductive View
  | pages
  | attachments
deriving DecidableEq

/-- The two ways to read a page as a file. -/
inductive FileFormat
  | text
  | xml
deriving DecidableEq

namespace FileFormat

def fileName : FileFormat → String
  | .text => ReservedName.wikiText
  | .xml => ReservedName.wikiXml

def ofFileName? (name : String) : Option FileFormat :=
  if name = ReservedName.wikiText then some .text
  else if name = ReservedName.wikiXml then some .xml
  else none

end FileFormat

inductive NodeKind
  | root
  | baseView (view : View)
  | orphans
  | space (space : Space) (view : View)
  | pageGroup (space : Space) (group : LetterGroup)
  | attachmentGroup (space : Space) (group : LetterGroup)
  | page (page : Page)
  | attachment (attachment : Attachment)
  | wikiFile (page : Page) (format : FileFormat)
  | scratch (name : String)
deriving DecidableEq

/-- What can be done with a node. -/
structure Capabilities where
  /-- Tokens can be decoded below it. -/
  canDecode : Bool
  isCollection : Bool
  canAddMember : Bool
  /-- Its parent may remove it. -/
  canRemove : Bool
  canMove : Bool
deriving DecidableEq

namespace NodeKind

/-- The name a node is listed under. -/
def displayName : NodeKind → String
  | .root => ""
  | .baseView .pages => ReservedName.pagesView
  | .baseView .attachments => ReservedName.attachmentsView
  | .orphans => ReservedName.orphansView
  | .space s .pages => s.name
  | .space s .attachments => s.text
  | .pageGroup _ group => group.name
  | .attachmentGroup _ group => group.name
  | .page p => p.text
  | .attachment a => a.file
  | .wikiFile _ format => format.fileName
  | .scratch name => name

def capabilities : NodeKind → Capabilities
  | .root | .orphans | .baseView _ | .space _ .attachments | .attachmentGroup _ _ =>
    ⟨true, true, true, false, false⟩
  | .space _ .pages | .page _ => ⟨true, true, true, true, true⟩
  | .pageGroup _ _ => ⟨true, true, true, true, false⟩
  | .attachment _ => ⟨false, false, false, true, true⟩
  | .wikiFile _ _ | .scratch _ => ⟨false, false, false, true, false⟩

def isCollection (k : NodeKind) : Bool := k.capabilities.isCollection

/-- The entity behind a node, which purely virtual nodes do not have. -/
def reference? : NodeKind → Option Entity
  | .root | .baseView _ | .orphans | .scratch _ => none
  | .space s _ | .pageGroup s _ | .attachmentGroup s _ => some (.space s)
  | .page p | .wikiFile p _ => some (.page p)
  | .attachment a => some (.attachment a)

/-- The space of a space directory or letter group. -/
def space? : NodeKind → Option Space
  | .space s _ | .pageGroup s _ | .attachmentGroup s _ => some s
  | _ => none

/-- The page of a page node. -/
def page? : NodeKind → Option Page
  | .page p => some p
  | _ => none

/-- The page whose document a node shows. -/
def documentPage? : NodeKind → Option Page
  | .page p | .wikiFile p _ => some p
  | _ => none

def isPage (k : NodeKind) : Bool := k.page?.isSome

def isLetterGroup : NodeKind → Bool
  | .pageGroup _ _ | .attachmentGroup _ _ => true
  | _ => false

end NodeKind

end WikiMount
