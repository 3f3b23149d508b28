import WikiMount.Reference.Basic

/-! # Rights and policies
A policy answers one question: may the current user exercise this right on this entity. It knows
nothing of what is stored, so rights that depend on stored pages are derived by whoever asks. -/

namespace WikiMount

/-- `overwrite` means replacing what is there: deleting it if it exists, editing it otherwise. -/
inductive Right
  | view
  | edit
  | delete
  | overwrite
deriving DecidableEq

namespace Right

def name : Right → String
  | .view => "view"
  | .edit => "edit"
  | .delete => "delete"
  | .overwrite => "overwrite"

/-- The place of a right in the order view, edit, delete, overwrite. -/
def rank : Right → Nat
  | .view => 0
  | .edit => 1
  | .delete => 2
  | .overwrite => 3

instance : Ord Right := ⟨compareOn rank⟩

end Right

/-- What one user may do. -/
structure Policy where
  name : String
  grants : Right → Entity → Bool

namespace Policy

def allowAll : Policy := ⟨"AllowAll", fun _ _ => true⟩

def denyAll : Policy := ⟨"DenyAll", fun _ _ => false⟩

/-- Refuses every right on attachments with one of the given file names and asks `base` about
everything else. -/
def denyFiles (files : List String) (base : Policy) : Policy where
  name := "DenyFiles"
  grants right target :=
    match target with
    | .attachment a => !files.contains a.file && base.grants right target
    | _ => base.grants right target

end Policy

end WikiMount
