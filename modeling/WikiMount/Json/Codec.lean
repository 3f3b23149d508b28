import WikiMount.Json.Reader

/-! # Codecs
A codec writes the values of a type as JSON and reads them back. A record is an object of its fields,
where unknown members do not matter and a repeated field is refused, or an array of its fields in
order. A choice without content is a text, a choice with content an object with one member. Whole
numbers have 64 bits. -/

namespace WikiMount.Json

class Codec (α : Type) where
  encode : α → Value
  decode? : Value → Option α

export Codec (encode decode?)

/-- What a JSON text says about a value of a type. -/
def ofText? {α : Type} [Codec α] (text : String) : Option α := (Value.ofText? text).bind decode?

/-- The number of a literal without sign, fraction and exponent, below 2^64. -/
def natural? (literal : String) : Option Nat :=
  if literal.toList.all Char.isDigit then
    let n := literal.toList.foldl (fun n c => n * 10 + (c.toNat - '0'.toNat)) 0
    if n < 0x10000000000000000 then some n else none
  else none

instance : Codec Nat where
  encode := .ofNat
  decode?
    | .number literal => natural? literal
    | _ => none

instance : Codec String where
  encode := .ofString
  decode?
    | .text text => text
    | _ => none

instance : Codec Bool where
  encode := .bool
  decode?
    | .bool b => some b
    | _ => none

instance {α : Type} [Codec α] : Codec (Option α) where
  encode
    | some a => encode a
    | none => .null
  decode?
    | .null => some none
    | v => (decode? v).map some

instance {α : Type} [Codec α] : Codec (List α) where
  encode l := .array (l.map encode)
  decode?
    | .array items => items.mapM decode?
    | _ => none

/-- The fields of a record that are present, and whether they were given by position. -/
structure Fields where
  present : List (String × Value)
  positional : Bool

namespace Fields

/-- The fields of a record with the given field names. -/
def ofValue? (names : List String) : Value → Option Fields
  | .object members =>
    match members.mapM fun m => m.1.map fun name => (name, m.2) with
    | none => none
    | some members =>
      let known := members.filter fun m => names.contains m.1
      if (known.map Prod.fst).Nodup then some ⟨known, false⟩ else none
  | .array items => if items.length ≤ names.length then some ⟨names.zip items, true⟩ else none
  | _ => none

def required? {α : Type} [Codec α] (f : Fields) (name : String) : Option α :=
  (f.present.lookup name).bind decode?

/-- A field that may be left out of an object, though not of an array. -/
def optional? {α : Type} [Codec α] (f : Fields) (name : String) : Option (Option α) :=
  match f.present.lookup name with
  | some v => decode? v
  | none => if f.positional then none else some none

/-- A field that may be left out everywhere. -/
def withDefault? {α : Type} [Codec α] (f : Fields) (name : String) (fallback : α) : Option α :=
  match f.present.lookup name with
  | some v => decode? v
  | none => some fallback

end Fields

/-- The name of a choice and its content, if it has any. -/
def choice? : Value → Option (String × Option Value)
  | .text (some name) => some (name, none)
  | .object [(some name, content)] => some (name, some content)
  | _ => none

/-- The choice among some names; a choice without content may also be written with the content
`null`. -/
def plainChoice? {α : Type} (choices : List (String × α)) (v : Value) : Option α :=
  match choice? v with
  | some (name, none) | some (name, some .null) => choices.lookup name
  | _ => none

end WikiMount.Json
