import WikiMount.Reference.Text
import WikiMount.Storage.Document

/-! # The XML export of a page
The export names every field of a document on a line of its own, from the reference to the content.
The five characters that markup gives a meaning are written as entities. -/

namespace WikiMount

namespace Export

def escapeChar : Char → List Char
  | '&' => "&amp;".toList
  | '<' => "&lt;".toList
  | '>' => "&gt;".toList
  | '"' => "&quot;".toList
  | '\'' => "&apos;".toList
  | c => [c]

def escape (s : String) : String := String.ofList (s.toList.flatMap escapeChar)

def field (name value : String) : String :=
  "  <" ++ name ++ ">" ++ escape value ++ "</" ++ name ++ ">\n"

/-- The names and values of the exported fields; an absent space or parent is an empty text. -/
def fields (d : Document) : List (String × String) :=
  [("reference", d.reference.text),
    ("space", (d.reference.space.map Space.text).getD ""),
    ("name", d.reference.name),
    ("parent", (d.parent.map Page.text).getD ""),
    ("locale", d.locale),
    ("created", toString d.createdAt),
    ("updated", toString d.updatedAt),
    ("content", d.content)]

end Export

/-- The document as an XML text. -/
def Document.xml (d : Document) : String :=
  "<?xml version=\"1.0\" encoding=\"UTF-8\"?>\n<document>\n" ++
    String.join ((Export.fields d).map fun f => Export.field f.1 f.2) ++ "</document>\n"

end WikiMount
