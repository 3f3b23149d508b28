import WikiMount.Storage.Store

/-! # The repository
The repository is the store as requests meet it: writes may be refused by a failure rule, and any
query or write that can fail may be out of order. Whether a page or a space exists is always
answered. Writes that succeed are counted. -/

namespace WikiMount

/-- What a repository is asked for by requests that can fail. -/
inductive Method
  | getDocument
  | saveDocument
  | deleteDocument
  | renameDocument
  | childPagesOfSpace
  | childPagesOfPage
  | childPagesWithPrefix
  | childSpaces
  | rootSpaces
  | allSpaces
  | attachmentsForPage
  | pagesWithAttachments
  | orphanPages
  | attachmentContent
  | saveAttachment
  | deleteAttachment
  | moveAttachment
deriving DecidableEq

namespace Method

def name : Method → String
  | .getDocument => "get_document"
  | .saveDocument => "save_document"
  | .deleteDocument => "delete_document"
  | .renameDocument => "rename_document"
  | .childPagesOfSpace => "child_pages_of_space"
  | .childPagesOfPage => "child_pages_of_page"
  | .childPagesWithPrefix => "child_pages_with_prefix"
  | .childSpaces => "child_spaces"
  | .rootSpaces => "root_spaces"
  | .allSpaces => "all_spaces"
  | .attachmentsForPage => "attachments_for_page"
  | .pagesWithAttachments => "pages_with_attachments_in_space"
  | .orphanPages => "orphan_pages"
  | .attachmentContent => "attachment_content"
  | .saveAttachment => "save_attachment"
  | .deleteAttachment => "delete_attachment"
  | .moveAttachment => "move_attachment"

def all : List Method :=
  [.getDocument, .saveDocument, .deleteDocument, .renameDocument, .childPagesOfSpace,
    .childPagesOfPage, .childPagesWithPrefix, .childSpaces, .rootSpaces, .allSpaces,
    .attachmentsForPage, .pagesWithAttachments, .orphanPages, .attachmentContent, .saveAttachment,
    .deleteAttachment, .moveAttachment]

def ofName? (name : String) : Option Method := all.find? (·.name == name)

theorem ofName?_name (m : Method) : ofName? m.name = some m := by
  cases m <;> decide

end Method

def Write.method : Write → Method
  | .save _ => .saveDocument
  | .delete _ => .deleteDocument
  | .rename _ _ => .renameDocument
  | .attach _ _ => .saveAttachment
  | .detach _ => .deleteAttachment
  | .move _ _ => .moveAttachment

/-- When writes fail: never, once `n` writes have succeeded, or on some pages. -/
inductive FailureRule
  | never
  | afterWrites (n : Nat)
  | onPages (pages : List Page)
deriving DecidableEq

/-- Whether a write to `page` fails after `writes` successful ones. -/
def FailureRule.stops (rule : FailureRule) (writes : Nat) (page : Page) : Bool :=
  match rule with
  | .never => false
  | .afterWrites n => n ≤ writes
  | .onPages pages => pages.contains page

structure Repository where
  store : Store
  failure : FailureRule
  /-- The number of writes that succeeded since the failure rule was set. It is a counter of 64 bits that
  is assumed not to wrap around. -/
  writes : Nat
  broken : List Method
deriving DecidableEq

namespace Repository

/-- A repository without faults. -/
def ofStore (store : Store) : Repository := ⟨store, .never, 0, []⟩

def empty : Repository := ofStore .empty

instance : Inhabited Repository := ⟨empty⟩

/-- Replaces the failure rule and starts counting writes again. -/
def setFailure (r : Repository) (rule : FailureRule) : Repository :=
  { r with failure := rule, writes := 0 }

/-- The answer of a method unless it is out of order. -/
def asked {α : Type} (r : Repository) (m : Method) (answer : Except StorageError α) :
    Except StorageError α :=
  if m ∈ r.broken then .error (.backend ("broken " ++ m.name)) else answer

/-! ## Queries -/

def hasPage (r : Repository) (page : Page) : Bool := r.store.hasPage page

def hasSpace (r : Repository) (space : Space) : Bool := r.store.hasSpace space

def document (r : Repository) (page : Page) : Except StorageError Document :=
  r.asked .getDocument (r.store.document page)

def pagesIn (r : Repository) (space : Space) : Except StorageError (List Page) :=
  r.asked .childPagesOfSpace (.ok (r.store.pagesIn space))

def childrenOf (r : Repository) (page : Page) : Except StorageError (List Page) :=
  r.asked .childPagesOfPage (.ok (r.store.childrenOf page))

def pagesBeginning (r : Repository) (space : Space) (beginning : String) :
    Except StorageError (List Page) :=
  r.asked .childPagesWithPrefix (.ok (r.store.pagesBeginning space beginning))

def spacesIn (r : Repository) (space : Space) : Except StorageError (List String) :=
  r.asked .childSpaces (.ok (r.store.spacesIn space))

def topLevelSpaces (r : Repository) : Except StorageError (List String) :=
  r.asked .rootSpaces (.ok r.store.topLevelSpaces)

def allSpaces (r : Repository) : Except StorageError (List Space) :=
  r.asked .allSpaces (.ok r.store.allSpaces)

def files (r : Repository) (page : Page) : Except StorageError (List String) :=
  r.asked .attachmentsForPage (.ok (r.store.filesOf page).keys)

def pagesWithFiles (r : Repository) (space : Space) : Except StorageError (List Page) :=
  r.asked .pagesWithAttachments (.ok (r.store.pagesWithFiles space))

def orphans (r : Repository) : Except StorageError (List Page) :=
  r.asked .orphanPages (.ok r.store.orphans)

def content (r : Repository) (a : Attachment) : Except StorageError Bytes :=
  r.asked .attachmentContent (r.store.content a)

/-! ## Writes -/

/-- Performs a write and counts it, unless the method is out of order or the failure rule stops
it. -/
def write (r : Repository) (w : Write) : Except StorageError Unit × Repository :=
  if w.method ∈ r.broken then (.error (.backend ("broken " ++ w.method.name)), r)
  else if r.failure.stops r.writes w.page then
    (.error (.backend ("injected write failure on " ++ w.page.text)), r)
  else
    match r.store.write w with
    | (.ok (), store) => (.ok (), { r with store := store, writes := r.writes + 1 })
    | (.error e, store) => (.error e, { r with store := store })

end Repository

end WikiMount
