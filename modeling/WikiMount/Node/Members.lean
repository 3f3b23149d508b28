import WikiMount.Context
import WikiMount.Node.Tree

/-! # Listing members
A listing never fails: what a query does not answer, what the caller may not view and what cannot be
a node is left out, so that one broken page does not hide its siblings. The candidates of a listing
depend only on the tree above the listed node; adding them is a second step. -/

namespace WikiMount

/-- A node to be listed: its kind and the token it is reached by. -/
abbrev Candidate := NodeKind × String

namespace Candidate

/-- A node reached by the name it is listed under. -/
def named (kind : NodeKind) : Candidate := (kind, kind.displayName)

/-- A page reached by its name within its space. -/
def short (page : Page) : Candidate := (.page page, page.name)

end Candidate

/-- Whether a page of this text would repeat a page on the way up from a node. The walk stops at the
first node that is not a page: the page hierarchy is the users' and may loop. -/
def Tree.closesCycle (t : Tree) (id : Nat) (text : String) : Bool :=
  ((t.ancestors id).takeWhile fun a => (t.kind a).isPage).any fun a =>
    (t.kind a).displayName == text

namespace Context

/-- The items of an answer; none if the query failed. -/
def listed {α : Type} : Except StorageError (List α) → List α
  | .ok l => l
  | .error _ => []

def visible (ctx : Context) (pages : List Page) : List Page := pages.filter ctx.canView

/-- The letter groups of some pages. -/
def groups (names : List String) (letters : Nat) : List LetterGroup :=
  (LetterGroup.buckets names letters).filterMap fun key => (LetterGroup.ofKey key).toOption

/-- Pages one by one, or their letter groups once there are enough of them. -/
def grouped (ctx : Context) (asGroup : LetterGroup → NodeKind) (pages : List Page) :
    List Candidate :=
  match ctx.config.grouping.letters pages.length with
  | 0 => pages.map .short
  | letters => (groups (pages.map Page.name) letters).map fun g => .named (asGroup g)

/-- The token a child page is reached by: its name where parent and child share a space, its full
text otherwise. -/
def childToken (parent child : Page) : String :=
  if child.space = parent.space then (Page.relative child.name).text else child.text

def childPages (ctx : Context) (t : Tree) (id : Nat) (page : Page) : List Candidate :=
  ((listed (ctx.repository.childrenOf page)).filter fun child =>
    !t.closesCycle id child.text && ctx.canView child).map fun child =>
      (.page child, childToken page child)

def attachments (ctx : Context) (page : Page) : List Candidate :=
  (((listed (ctx.repository.files page)).map fun file => Attachment.mk page file).filter fun a =>
    ctx.holds .view (.attachment a)).map fun a => .named (.attachment a)

def wikiFiles (page : Page) : List Candidate :=
  [.named (.wikiFile page .text), .named (.wikiFile page .xml)]

def scratchFiles (ctx : Context) (path : String) : List Candidate :=
  match ctx.scratch with
  | some scratch => (scratch.namesIn path).map fun name => .named (.scratch name)
  | none => []

/-- What the repository holds below a node; nothing for a page that may not be viewed and for
files. -/
def stored? (ctx : Context) (t : Tree) (id : Nat) : Option (List Candidate) :=
  match t.kind id with
  | .root =>
    some [.named (.baseView .pages), .named (.baseView .attachments), .named .orphans]
  | .baseView .pages =>
    some ((listed ctx.repository.topLevelSpaces).map fun name =>
      .named (.space (.topLevel name) .pages))
  | .baseView .attachments =>
    some ((listed ctx.repository.allSpaces).map fun space => .named (.space space .attachments))
  | .orphans =>
    some ((ctx.visible (listed ctx.repository.orphans)).map fun page => .named (.page page))
  | .space space .pages =>
    some (((listed (ctx.repository.spacesIn space)).map fun name =>
        Candidate.named (.space (space.child name) .pages)) ++
      ctx.grouped (.pageGroup space) (ctx.visible (listed (ctx.repository.pagesIn space))))
  | .space space .attachments =>
    some (ctx.grouped (.attachmentGroup space)
      (ctx.visible (listed (ctx.repository.pagesWithFiles space))))
  | .pageGroup space group =>
    some ((ctx.visible (listed (ctx.repository.pagesBeginning space group.key))).map .short)
  | .attachmentGroup space group =>
    some ((ctx.visible ((listed (ctx.repository.pagesWithFiles space)).filter fun page =>
      group.holds page.name)).map .short)
  | .page page =>
    if ctx.canView page then
      some (ctx.childPages t id page ++ ctx.attachments page ++ wikiFiles page)
    else none
  | .attachment _ | .wikiFile _ _ | .scratch _ => none

/-- Everything to be listed below a node, scratch files last. -/
def candidates (ctx : Context) (t : Tree) (id : Nat) : List Candidate :=
  match ctx.stored? t id with
  | some stored => stored ++ ctx.scratchFiles (t.path id)
  | none => []

end Context

/-- Adds the candidates that can be nodes below a node, in order. -/
def Tree.insertAll (t : Tree) (parent : Nat) : List Candidate → List Nat × Tree
  | [] => ([], t)
  | (kind, segment) :: rest =>
    match t.insert parent kind segment with
    | .error _ => t.insertAll parent rest
    | .ok (id, t) =>
      let (ids, t) := t.insertAll parent rest
      (id :: ids, t)

/-- The members of a node, added to the tree. -/
def Context.members (ctx : Context) (t : Tree) (id : Nat) : List Nat × Tree :=
  t.insertAll id (ctx.candidates t id)

end WikiMount
