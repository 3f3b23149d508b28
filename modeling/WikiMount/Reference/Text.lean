import WikiMount.Reference.Basic

/-! # The text of references
Segments are joined with `.`, a page is `space.name` and an attachment `space.name@file`. A reserved
character (`.`, `@` or `\`) inside a name is written after a `\`, so that reading a text undoes
writing it. A page text with a single name is a relative page. -/

namespace WikiMount

namespace ReferenceText

def isReserved (c : Char) : Bool := c == '.' || c == '@' || c == '\\'

/-- Writes a name with every reserved character marked. -/
def escape : List Char → List Char
  | [] => []
  | c :: rest => if isReserved c then '\\' :: c :: escape rest else c :: escape rest

/-- Reads back what `escape` writes; refuses a mark before an ordinary character and a reserved
character without a mark. -/
def unescape? : List Char → Option (List Char)
  | [] => some []
  | ['\\'] => none
  | '\\' :: c :: rest => if isReserved c then (unescape? rest).map (c :: ·) else none
  | c :: rest => if isReserved c then none else (unescape? rest).map (c :: ·)

/-- Puts characters before the first piece. -/
def extendFirst (cs : List Char) : List (List Char) → List (List Char)
  | [] => [cs]
  | piece :: rest => (cs ++ piece) :: rest

/-- Splits at every separator that is not marked, keeping the marks in the pieces; a text that ends
in a lone mark has no split. -/
def split? (separator : Char) : List Char → Option (List (List Char))
  | [] => some [[]]
  | ['\\'] => none
  | '\\' :: c :: rest => (split? separator rest).map (extendFirst ['\\', c])
  | c :: rest =>
    if c = separator then (split? separator rest).map ([] :: ·)
    else (split? separator rest).map (extendFirst [c])

/-- Reads one name, which must not be empty. -/
def name? (raw : List Char) : Option String :=
  match unescape? raw with
  | some (c :: cs) => some (String.ofList (c :: cs))
  | _ => none

/-- Reads the names of a dotted text. -/
def names? (text : List Char) : Option (List String) :=
  match split? '.' text with
  | some pieces => pieces.mapM name?
  | none => none

@[simp] theorem unescape?_escape (cs : List Char) : unescape? (escape cs) = some cs := by
  induction cs with
  | nil => rfl
  | cons c cs ih =>
    by_cases h : isReserved c
    · simp [escape, unescape?, h, ih]
    · have hc : c ≠ '\\' := fun e => h (by simp [e, isReserved])
      simp [escape, unescape?, h, ih, hc]

def escaped (name : String) : String := String.ofList (escape name.toList)

end ReferenceText

open ReferenceText

namespace Space

def text (s : Space) : String := ".".intercalate (s.segments.map escaped)

/-- Reads the text of a space. -/
def ofText (text : String) : Except ReferenceError Space :=
  match names? text.toList with
  | some segments => ofSegments segments
  | none => .error (.malformed text)

end Space

namespace Page

def text (p : Page) : String :=
  match p.space with
  | some space => space.text ++ "." ++ escaped p.name
  | none => escaped p.name

/-- Reads the text of a page; a single name is a relative page. -/
def ofText (text : String) : Except ReferenceError Page :=
  match names? text.toList with
  | some names =>
    match names.getLast?, names.dropLast with
    | none, _ => .error (.malformed text)
    | some name, [] => .ok (relative name)
    | some name, segments => (Space.ofSegments segments).map (inSpace name)
  | none => .error (.malformed text)

end Page

namespace Attachment

def text (a : Attachment) : String := a.page.text ++ "@" ++ escaped a.file

/-- Reads the text of an attachment: a page, one unmarked `@` and a file name. -/
def ofText (text : String) : Except ReferenceError Attachment :=
  match split? '@' text.toList with
  | some [page, file] =>
    match Page.ofText (String.ofList page), name? file with
    | .error e, _ => .error e
    | .ok _, none => .error (.malformed text)
    | .ok page, some file => .ok ⟨page, file⟩
  | _ => .error (.malformed text)

end Attachment

/-- What an entity is called in messages. -/
def Entity.label : Entity → String
  | .space s => "space " ++ s.text
  | .page p => "page " ++ p.text
  | .attachment a => "attachment " ++ a.text

end WikiMount
