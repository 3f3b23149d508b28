import WikiMount.Bytes
import WikiMount.Reference.Order
import WikiMount.Reference.Text
import WikiMount.Sorted.Map
import WikiMount.Storage.Document
import WikiMount.Storage.Error
import WikiMount.Text.Uppercase

/-! # The store
The store holds spaces, pages and attached files in order of their references, and a logical clock
that counts page writes. This module says what each query answers and what each write does to the
store. Moving an attachment takes the file out before the destination is looked at, so it is the one
write that can fail and still leave a change. -/

namespace WikiMount

open Text (upperChars uppercase)

structure Store where
  spaces : SortedSet Space
  documents : SortedMap Page Document
  attachments : SortedMap Page (SortedMap String Bytes)
  /-- The number of page writes so far, which is the time of the latest one. It is a counter of 64 bits
  that is assumed not to wrap around. -/
  clock : Nat
deriving DecidableEq

namespace Store

def empty : Store := ⟨.empty, .empty, .empty, 0⟩

instance : Inhabited Store := ⟨empty⟩

/-- Makes a space and every space that encloses it known. -/
def registerSpace (s : Store) (space : Space) : Store :=
  { s with spaces := space.lineage.foldl SortedSet.add s.spaces }

/-! ## Queries -/

def hasPage (s : Store) (page : Page) : Bool := s.documents.contains page

def hasSpace (s : Store) (space : Space) : Bool := s.spaces.contains space

theorem hasSpace_registerSpace {s : Store} {space other : Space} :
    (s.registerSpace space).hasSpace other = true ↔
      other ∈ space.lineage ∨ s.hasSpace other = true :=
  SortedSet.contains_addAll

/-- The document of a page, a blank one if the page is not stored. -/
def document (s : Store) (page : Page) : Except StorageError Document :=
  match page.requireSpace with
  | .ok _ => .ok ((s.documents.get? page).getD (.blank page))
  | .error e => .error (.invalidReference e)

/-- The pages directly in a space. -/
def pagesIn (s : Store) (space : Space) : List Page := s.documents.keys.filter (·.isIn space)

/-- The pages whose parent is `page`. -/
def childrenOf (s : Store) (page : Page) : List Page :=
  (s.documents.values.filter fun d => d.parent == some page).map Document.reference

/-- The pages directly in a space whose uppercase name begins with the uppercase `beginning`. -/
def pagesBeginning (s : Store) (space : Space) (beginning : String) : List Page :=
  s.documents.keys.filter fun page =>
    page.isIn space && (upperChars beginning.toList).isPrefixOf (upperChars page.name.toList)

/-- The names of the spaces nested directly in a space. -/
def spacesIn (s : Store) (space : Space) : List String :=
  (s.spaces.keys.filter fun nested => nested.parent == some space).map Space.name

/-- The names of the top-level spaces. -/
def topLevelSpaces (s : Store) : List String := (s.spaces.keys.filter Space.isTopLevel).map Space.name

def allSpaces (s : Store) : List Space := s.spaces.keys

/-- The files attached to a page, by name. -/
def filesOf (s : Store) (page : Page) : SortedMap String Bytes :=
  (s.attachments.get? page).getD .empty

/-- The pages directly in a space that hold a file. -/
def pagesWithFiles (s : Store) (space : Space) : List Page :=
  (s.attachments.entries.filter fun e => e.1.isIn space && !e.2.isEmpty).map Prod.fst

/-- The pages whose parent is not stored. -/
def orphans (s : Store) : List Page :=
  (s.documents.values.filter fun d => d.parent.all fun parent => !s.hasPage parent).map
    Document.reference

def content (s : Store) (a : Attachment) : Except StorageError Bytes :=
  match (s.filesOf a.page).get? a.file with
  | some data => .ok data
  | none => .error (.notFound a.text)

/-! ## Writes -/

/-- Files a document under its reference and makes its space known. -/
def save (s : Store) (d : Document) : Except StorageError Store :=
  match d.reference.requireSpace with
  | .error e => .error (.invalidReference e)
  | .ok space =>
    let now := s.clock + 1
    .ok { s.registerSpace space with
      documents := s.documents.insert d.reference (d.savedAt now)
      clock := now }

/-- Saves a blank document with the given parent. -/
def addPage (s : Store) (page : Page) (parent : Option Page) : Except StorageError Store :=
  s.save { Document.blank page with parent := parent }

/-- Creates the page as a blank document unless it is stored. -/
def ensurePage (s : Store) (page : Page) : Except StorageError Store :=
  if s.hasPage page then .ok s else s.save (.blank page)

/-- Removes a page with its attachments. -/
def delete (s : Store) (page : Page) : Except StorageError Store :=
  if s.hasPage page then
    .ok { s with documents := s.documents.erase page, attachments := s.attachments.erase page }
  else .error (.notFound page.text)

/-- Moves the files of a page to another one, whose own files are dropped first. -/
def moveFiles (files : SortedMap Page (SortedMap String Bytes)) (page destination : Page) :
    SortedMap Page (SortedMap String Bytes) :=
  let files := files.erase destination
  match files.get? page with
  | some moved => (files.erase page).insert destination moved
  | none => files

/-- Files a page under another reference, in place of any page that was there. -/
def rename (s : Store) (page destination : Page) : Except StorageError Store :=
  match destination.requireSpace, s.documents.get? page with
  | .error e, _ => .error (.invalidReference e)
  | .ok _, none => .error (.notFound page.text)
  | .ok space, some d =>
    let now := s.clock + 1
    .ok { s.registerSpace space with
      documents := (s.documents.erase page).insert destination
        { d with reference := destination, updatedAt := now }
      attachments := moveFiles s.attachments page destination
      clock := now }

/-- Attaches a file to a page that is stored. -/
def putFile (s : Store) (a : Attachment) (data : Bytes) : Store :=
  { s with attachments := s.attachments.insert a.page ((s.filesOf a.page).insert a.file data) }

/-- Takes a file off its page. -/
def takeFile (s : Store) (a : Attachment) : Store :=
  { s with attachments := s.attachments.insert a.page ((s.filesOf a.page).erase a.file) }

/-- Attaches a file, creating its page if needed. -/
def attach (s : Store) (a : Attachment) (data : Bytes) : Except StorageError Store :=
  (s.ensurePage a.page).map (·.putFile a data)

def detach (s : Store) (a : Attachment) : Except StorageError Store :=
  match s.content a with
  | .ok _ => .ok (s.takeFile a)
  | .error e => .error e

/-- Takes a file off its page and attaches it to the destination, creating that page if needed. If
the destination cannot be created the file is gone. -/
def move (s : Store) (a destination : Attachment) : Except StorageError Unit × Store :=
  match s.content a with
  | .error e => (.error e, s)
  | .ok data =>
    let taken := s.takeFile a
    match taken.attach destination data with
    | .ok s => (.ok (), s)
    | .error e => (.error e, taken)

end Store

/-- A write to the store. -/
inductive Write
  | save (document : Document)
  | delete (page : Page)
  | rename (page destination : Page)
  | attach (attachment : Attachment) (data : Bytes)
  | detach (attachment : Attachment)
  | move (attachment destination : Attachment)
deriving DecidableEq

/-- The page a write is accounted to. -/
def Write.page : Write → Page
  | .save d => d.reference
  | .delete page => page
  | .rename page _ => page
  | .attach a _ => a.page
  | .detach a => a.page
  | .move a _ => a.page

namespace Store

/-- Keeps the store where a write has failed. -/
def settle (s : Store) : Except StorageError Store → Except StorageError Unit × Store
  | .ok s' => (.ok (), s')
  | .error e => (.error e, s)

/-- Performs a write; the answer comes with the store afterwards. -/
def write (s : Store) : Write → Except StorageError Unit × Store
  | .save d => s.settle (s.save d)
  | .delete page => s.settle (s.delete page)
  | .rename page destination => s.settle (s.rename page destination)
  | .attach a data => s.settle (s.attach a data)
  | .detach a => s.settle (s.detach a)
  | .move a destination => s.move a destination

end Store

end WikiMount
