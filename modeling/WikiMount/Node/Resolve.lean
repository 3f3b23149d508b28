import WikiMount.Context
import WikiMount.Node.Tree

/-! # Resolving paths
A path is decoded one token at a time by the node reached so far. Whether a token is the last one
matters: a name that does not exist yet is accepted at the end of a request that creates or moves
something. Nodes that were added before a token fails stay in the tree. -/

namespace WikiMount

namespace Context

/-- Whether the last token of the request may name something new. -/
def mayBeNew (ctx : Context) (last : Bool) : Bool := last && ctx.intent.isCreateOrMove

/-- What the request moves, as far as its last token is concerned. -/
def moving? (ctx : Context) (last : Bool) : Option MoveSource :=
  if last then ctx.intent.moveSource? else none

def decodeBaseView (token : String) : Except ViewError NodeKind :=
  if token = ReservedName.pagesView then .ok (.baseView .pages)
  else if token = ReservedName.attachmentsView then .ok (.baseView .attachments)
  else if token = ReservedName.orphansView then .ok .orphans
  else .error (.badRequest (.noBaseView token))

/-- The stored page that a token names in full, beginning with the name of the space it is asked in.
-/
def pageByFullName? (ctx : Context) (space : Space) (token : String) : Option Page :=
  if (space.name.toList ++ ['.']).isPrefixOf token.toList then
    match Page.ofText token with
    | .ok page => if page.space.isSome && ctx.repository.hasPage page then some page else none
    | .error _ => none
  else none

/-- What a token names in a space of the pages view: a letter group, a page, a nested space, or a
page by its full name. -/
def decodeInSpace (ctx : Context) (space : Space) (token : String) (last : Bool) :
    Except ViewError (Option NodeKind) :=
  if ReservedName.isGroup token && !ctx.mayBeNew last then
    (LetterGroup.ofToken token).map fun group => some (.pageGroup space group)
  else if ctx.intent.isCreateCollection || ctx.moving? last == some .page ||
      ctx.repository.hasPage (.inSpace token space) then
    .ok (some (.page (.inSpace token space)))
  else if ctx.moving? last == some .space || ctx.repository.hasSpace (space.child token) then
    .ok (some (.space (space.child token) .pages))
  else .ok ((ctx.pageByFullName? space token).map .page)

/-- What a token names below a page: a wiki file, an attachment, or a page of the page hierarchy. -/
def decodeInPage (ctx : Context) (page : Page) (token : String) (last : Bool) :
    Except ViewError NodeKind :=
  match FileFormat.ofFileName? token with
  | some format => .ok (.wikiFile page format)
  | none =>
    match ctx.repository.files page with
    | .error e => .error (.ofStorage e)
    | .ok files =>
      if files.contains token || (last && ctx.intent.isCreateFile) ||
          ctx.moving? last == some .attachment then
        .ok (.attachment ⟨page, token⟩)
      else
        match Page.ofText token, page.space with
        | .error e, _ => .error (.ofReference e)
        | .ok child, some space => .ok (.page (child.orInSpace space))
        | .ok child, none => .ok (.page child)

/-- The kind of node that a token names below a node of the given kind and path. -/
def decode (ctx : Context) (kind : NodeKind) (path token : String) (last : Bool) :
    Except ViewError NodeKind :=
  let unresolvable : Except ViewError NodeKind := .error (.badRequest (.unresolvable token path))
  if !kind.capabilities.canDecode then .error (.badRequest (.noChildren path))
  else if ReservedName.isScratch token then .ok (.scratch token)
  else
    match kind with
    | .root => decodeBaseView token
    | .baseView .pages =>
      if last && ctx.intent.isCreateFile then unresolvable
      else .ok (.space (.topLevel token) .pages)
    | .baseView .attachments =>
      match Space.ofText token with
      | .ok space => .ok (.space space .attachments)
      | .error e => .error (.ofReference e)
    | .orphans =>
      match Page.ofText token with
      | .error e => .error (.ofReference e)
      | .ok page =>
        if page.space.isNone || !ctx.repository.hasPage page || ctx.mayBeNew last then unresolvable
        else .ok (.page page)
    | .space space .pages =>
      match ctx.decodeInSpace space token last with
      | .error e => .error e
      | .ok (some kind) => .ok kind
      | .ok none => unresolvable
    | .space space .attachments =>
      if ReservedName.isGroup token && !ctx.mayBeNew last then
        (LetterGroup.ofToken token).map (.attachmentGroup space)
      else if ctx.repository.hasPage (.inSpace token space) then
        .ok (.page (.inSpace token space))
      else unresolvable
    | .pageGroup space group =>
      if !group.holds token || (last && ctx.intent.isCreateFile) then unresolvable
      else .ok (.page (.inSpace token space))
    | .attachmentGroup space _ =>
      if !ctx.repository.hasPage (.inSpace token space) || ctx.mayBeNew last then unresolvable
      else .ok (.page (.inSpace token space))
    | .page page => ctx.decodeInPage page token last
    | .attachment _ | .wikiFile _ _ | .scratch _ => .error (.badRequest (.noChildren path))

/-- Adds the node that a token names below a node. -/
def step (ctx : Context) (t : Tree) (id : Nat) (token : String) (last : Bool) :
    Except ViewError (Nat × Tree) :=
  match ctx.decode (t.kind id) (t.path id) token last with
  | .error e => .error e
  | .ok kind => t.insert id kind token

/-- Follows tokens from a node, adding a node for each. -/
def resolve (ctx : Context) (t : Tree) (id : Nat) : List String → Except ViewError Nat × Tree
  | [] => (.ok id, t)
  | token :: rest =>
    match ctx.step t id token rest.isEmpty with
    | .error e => (.error e, t)
    | .ok (child, t) => ctx.resolve t child rest

/-- Follows a path from the root. -/
def resolvePath (ctx : Context) (t : Tree) (path : String) : Except ViewError Nat × Tree :=
  match Path.tokens path with
  | .error e => (.error (.ofPath e), t)
  | .ok tokens => ctx.resolve t 0 tokens

end Context

end WikiMount
