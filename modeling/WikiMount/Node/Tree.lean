import WikiMount.Node.Kind
import WikiMount.Storage.Repository

/-! # The node tree
The nodes that a request meets are numbered in the order they are added, the wiki root being 0, and
each knows its parent by number. A node is added below one that is there already, so parents come
before their children. A node may keep the document that was read for it. -/

namespace WikiMount

structure Node where
  kind : NodeKind
  /-- The token the node is reached by from its parent. -/
  segment : String
  parent : Option Nat
  /-- The document that was read for the node. -/
  snapshot : Option Document
deriving DecidableEq

namespace Node

def root : Node := ⟨.root, "", none, none⟩

instance : Inhabited Node := ⟨root⟩

/-- What the node adds to the path of its parent. -/
def relativePath (n : Node) : String :=
  match n.parent with
  | none => ""
  | some _ => "/" ++ n.segment

end Node

structure Tree where
  nodes : Array Node
deriving DecidableEq

namespace Tree

/-- The tree of the wiki root alone. -/
def new : Tree := ⟨#[.root]⟩

instance : Inhabited Tree := ⟨new⟩

/-- The node of a number; a number that was not given out stands for the root. -/
def node (t : Tree) (id : Nat) : Node := t.nodes[id]?.getD .root

def kind (t : Tree) (id : Nat) : NodeKind := (t.node id).kind

def size (t : Tree) : Nat := t.nodes.size

/-- What a kind of node requires of its place: pages have a space, letter groups sit in the directory
of their space, spaces are well formed, and the root is nowhere but at the top. -/
def validate (parent kind : NodeKind) : Except ViewError Unit :=
  match kind with
  | .root => .error (.internal .nestedRoot)
  | .page page =>
    match page.requireSpace with
    | .ok _ => .ok ()
    | .error e => .error (.ofReference e)
  | .pageGroup space _ =>
    if parent = .space space .pages then .ok ()
    else .error (.internal (.pageGroupMisplaced space))
  | .attachmentGroup space _ =>
    if parent = .space space .attachments then .ok ()
    else .error (.internal (.attachmentGroupMisplaced space))
  | .space space _ =>
    if space.isWellFormed then .ok () else .error (.badRequest (.invalidSpace space))
  | _ => .ok ()

/-- Adds a node that is reached by `segment` from its parent. -/
def insert (t : Tree) (parent : Nat) (kind : NodeKind) (segment : String) :
    Except ViewError (Nat × Tree) :=
  match validate (t.kind parent) kind with
  | .error e => .error e
  | .ok () => .ok (t.size, ⟨t.nodes.push ⟨kind, segment, some parent, none⟩⟩)

theorem insert_eq_ok {t t' : Tree} {parent id : Nat} {kind : NodeKind} {segment : String}
    (h : t.insert parent kind segment = .ok (id, t')) :
    validate (t.kind parent) kind = .ok () ∧ id = t.size ∧
      t' = ⟨t.nodes.push ⟨kind, segment, some parent, none⟩⟩ := by
  unfold insert at h
  split at h
  · cases h
  next hv => cases h; exact ⟨hv, rfl, rfl⟩

/-- An added node is the one it was made as, and no other node has changed. -/
theorem node_insert {t t' : Tree} {parent id : Nat} {kind : NodeKind} {segment : String}
    (h : t.insert parent kind segment = .ok (id, t')) (other : Nat) :
    t'.node other = if other = id then ⟨kind, segment, some parent, none⟩ else t.node other := by
  obtain ⟨_, rfl, rfl⟩ := insert_eq_ok h
  by_cases ho : other = t.size <;> simp_all [node, size, Array.getElem?_push]

/-- Adds a node that is reached by the name it is listed under. -/
def insertNamed (t : Tree) (parent : Nat) (kind : NodeKind) : Except ViewError (Nat × Tree) :=
  t.insert parent kind kind.displayName

/-- At most `steps` steps from a node towards the root, the node itself first. -/
def ancestorsWithin (t : Tree) : Nat → Nat → List Nat
  | 0, id => [id]
  | steps + 1, id =>
    match (t.node id).parent with
    | none => [id]
    | some parent => id :: t.ancestorsWithin steps parent

/-- The nodes from a node up to the root. -/
def ancestors (t : Tree) (id : Nat) : List Nat := t.ancestorsWithin id id

/-- The nodes from the root down to a node, by kind and relative path. -/
def describe (t : Tree) (id : Nat) : List (NodeKind × String) :=
  (t.ancestors id).reverse.map fun a => (t.kind a, (t.node a).relativePath)

/-- The full path of a node. -/
def path (t : Tree) (id : Nat) : String :=
  let path := String.join ((t.ancestors id).reverse.map fun a => (t.node a).relativePath)
  if path = "" then "/" else path

/-- The closest enclosing node that is not a letter group. Letter groups leave changes to the
directory whose pages they collect. -/
def semanticParent? (t : Tree) (id : Nat) : Option Nat :=
  (t.ancestors id).tail.find? fun a => !(t.kind a).isLetterGroup

/-- Keeps a document for a node. -/
def remember (t : Tree) (id : Nat) (d : Document) : Tree :=
  ⟨t.nodes.modify id fun n => { n with snapshot := some d }⟩

/-- Drops the document kept for a node. -/
def forget (t : Tree) (id : Nat) : Tree :=
  ⟨t.nodes.modify id fun n => { n with snapshot := none }⟩

/-- The document of a page or wiki file, as it was when it was first read for the node. -/
def document (t : Tree) (r : Repository) (id : Nat) : Except ViewError Document :=
  match (t.kind id).documentPage? with
  | none => .error (.internal (.noDocument (t.kind id).displayName))
  | some page =>
    match (t.node id).snapshot with
    | some d => .ok d
    | none =>
      match r.document page with
      | .ok d => .ok d
      | .error e => .error (.ofStorage e)

/-- The document of a node, which the node keeps from then on. -/
def fetch (t : Tree) (r : Repository) (id : Nat) : Except ViewError Document × Tree :=
  match t.document r id with
  | .ok d => (.ok d, t.remember id d)
  | .error e => (.error e, t)

end Tree

end WikiMount
