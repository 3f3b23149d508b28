import WikiMount.Bytes
import WikiMount.Sorted.Map

/-! # Scratch files
Editors and file managers put hidden and backup files next to what they edit. They are kept per user,
under their full path, and never reach the repository. -/

namespace WikiMount

/-- The scratch files of one user by full path. -/
structure Scratch where
  files : SortedMap String Bytes
deriving DecidableEq

namespace Scratch

def empty : Scratch := ⟨.empty⟩

instance : Inhabited Scratch := ⟨empty⟩

def size (s : Scratch) : Nat := s.files.size

/-- What stands before the last slash of a path; the root if that is nothing. -/
def directory (path : String) : String :=
  match ((path.toList.reverse.dropWhile (· != '/')).drop 1).reverse with
  | [] => "/"
  | cs => String.ofList cs

/-- What stands after the last slash of a path. -/
def fileName (path : String) : String :=
  String.ofList (path.toList.reverse.takeWhile (· != '/')).reverse

/-- The names of the files directly in a directory. -/
def namesIn (s : Scratch) (path : String) : List String :=
  (s.files.keys.filter fun file => directory file == path).map fileName

def contains (s : Scratch) (path : String) : Bool := s.files.contains path

def read? (s : Scratch) (path : String) : Option Bytes := s.files.get? path

def write (s : Scratch) (path : String) (data : Bytes) : Scratch := ⟨s.files.insert path data⟩

def remove (s : Scratch) (path : String) : Scratch := ⟨s.files.erase path⟩

theorem read?_write (s : Scratch) (path other : String) (data : Bytes) :
    (s.write path data).read? other = if other = path then some data else s.read? other := by
  simp only [write, read?, SortedMap.get?_insert, Std.LawfulEqCmp.compare_eq_iff_eq]

theorem read?_remove (s : Scratch) (path other : String) :
    (s.remove path).read? other = if other = path then none else s.read? other := by
  simp only [remove, read?, SortedMap.get?_erase, Std.LawfulEqCmp.compare_eq_iff_eq]

end Scratch

end WikiMount
