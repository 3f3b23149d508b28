import WikiMount.Reference.Basic

/-! # Documents -/

namespace WikiMount

/-- A copy of a page at one moment; changing it has no effect until it is saved. -/
structure Document where
  reference : Page
  content : String
  /-- The page's parent in the page hierarchy, which is independent of spaces. -/
  parent : Option Page
  createdAt : Nat
  updatedAt : Nat
  locale : String
  /-- Whether the document was never saved. -/
  isNew : Bool
deriving DecidableEq

namespace Document

/-- The empty document of a page that was never saved. -/
def blank (page : Page) : Document where
  reference := page
  content := ""
  parent := none
  createdAt := 0
  updatedAt := 0
  locale := ""
  isNew := true

instance : Inhabited Document := ⟨blank default⟩

/-- The document as it is filed at time `now`. -/
def savedAt (d : Document) (now : Nat) : Document :=
  { d with
    createdAt := if d.isNew || d.createdAt == 0 then now else d.createdAt
    updatedAt := now
    isNew := false }

end Document

end WikiMount
