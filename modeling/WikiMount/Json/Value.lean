/-! # JSON values
A value is kept as it is written: numbers as their literals, objects as their members in order, with
repeated names. Escapes can write half a surrogate pair; a text with such a half has no characters,
which matters only to whoever wants to use it. -/

namespace WikiMount.Json

/-- A JSON text, absent if it is not made of characters. -/
abbrev Text := Option String

inductive Value
  | null
  | bool (b : Bool)
  | number (literal : String)
  | text (text : Text)
  | array (items : List Value)
  | object (members : List (Text × Value))
deriving Inhabited

namespace Value

def ofString (s : String) : Value := .text (some s)

def ofNat (n : Nat) : Value := .number (toString n)

def ofMembers (members : List (String × Value)) : Value :=
  .object (members.map fun m => (some m.1, m.2))

end Value

end WikiMount.Json
