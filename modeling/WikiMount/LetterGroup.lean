import WikiMount.ReservedName
import WikiMount.Sorted.Map
import WikiMount.Text.Uppercase
import WikiMount.ViewError

/-! # Letter groups
A space with many pages is listed as one directory for each uppercase beginning of a page name. The
beginnings grow from one to three letters with the number of pages, so that each group stays small.
A group is named `_KEY_`. -/

namespace WikiMount

open Text (uppercase upperChars)

/-- The numbers of pages from which on groups have one, two and three letters. -/
structure Thresholds where
  oneLetter : Nat
  twoLetters : Nat
  threeLetters : Nat
deriving DecidableEq

namespace Thresholds

def standard : Thresholds := ⟨40, 200, 5000⟩

instance : Inhabited Thresholds := ⟨standard⟩

/-- The number of letters to group `count` pages by; zero for no groups. -/
def letters (t : Thresholds) (count : Nat) : Nat :=
  if count < t.oneLetter then 0
  else if count < t.twoLetters then 1
  else if count < t.threeLetters then 2
  else 3

end Thresholds

/-- A group of the pages whose uppercase name begins with the key. -/
structure LetterGroup where
  key : String
  key_ne_empty : key ≠ ""
  uppercase_key : uppercase key = key
deriving DecidableEq

namespace LetterGroup

/-- The key a page name is grouped under: its first `length` characters in uppercase. -/
def bucketKey (name : String) (length : Nat) : String :=
  String.ofList (upperChars (name.toList.take length))

/-- The distinct keys of some page names, in ascending order. -/
def buckets (names : List String) (length : Nat) : List String :=
  (SortedSet.ofList (names.map (bucketKey · length))).keys

/-- The group of a key, which must be a non-empty uppercase text. -/
def ofKey (key : String) : Except ViewError LetterGroup :=
  if h : key ≠ "" ∧ uppercase key = key then .ok ⟨key, h.1, h.2⟩
  else .error (.internal (.invalidGroupKey key))

/-- The key between the markers of a group name. -/
def keyOfName? : List Char → Option (List Char)
  | [] => none
  | c :: rest =>
    if c = ReservedName.groupMarker ∧ rest.getLast? = some ReservedName.groupMarker then
      some rest.dropLast
    else none

/-- The group of a full `_KEY_` name. -/
def ofName (name : String) : Except ViewError LetterGroup :=
  match keyOfName? name.toList with
  | some key => ofKey (String.ofList key)
  | none => .error (.internal (.invalidGroupName name))

/-- The group that a user's token names in any case of its letters. -/
def ofToken (token : String) : Except ViewError LetterGroup :=
  if token.toList.length = 2 then .error (.badRequest (.invalidGroupToken token))
  else ofName (uppercase token)

def name (g : LetterGroup) : String :=
  String.ofList (ReservedName.groupMarker :: (g.key.toList ++ [ReservedName.groupMarker]))

/-- Whether a page of this name belongs to the group. -/
def holds (g : LetterGroup) (page : String) : Bool :=
  g.key.toList.isPrefixOf (upperChars page.toList)

end LetterGroup

end WikiMount
