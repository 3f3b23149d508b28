/-! # References
A reference names a space, a page or an attachment of one wiki by its full hierarchical name and
carries nothing of what it names. References are not checked when they are built: a space may have
no segments or empty ones, and a page may leave its space open, so well-formedness is a predicate.
-/

namespace WikiMount

/-- A space with its enclosing spaces, outermost first. -/
structure Space where
  segments : List String
deriving DecidableEq, Inhabited

/-- A page and the space it lives in; a relative page leaves the space open. -/
structure Page where
  space : Option Space
  name : String
deriving DecidableEq, Inhabited

/-- A file attached to a page. -/
structure Attachment where
  page : Page
  file : String
deriving DecidableEq, Inhabited

/-- Anything a right can be held on. -/
inductive Entity
  | space (space : Space)
  | page (page : Page)
  | attachment (attachment : Attachment)
deriving DecidableEq

/-- Why a text or a page is no usable reference. -/
inductive ReferenceError
  | malformed (text : String)
  | missingSpace (page : String)
deriving DecidableEq

def ReferenceError.message : ReferenceError → String
  | .malformed text => "Malformed reference: " ++ text
  | .missingSpace page => "Page has no enclosing space: " ++ page

namespace Space

def topLevel (name : String) : Space := ⟨[name]⟩

/-- The space called `name` nested directly in this one. -/
def child (s : Space) (name : String) : Space := ⟨s.segments ++ [name]⟩

/-- The enclosing space, which a top-level space does not have. -/
def parent (s : Space) : Option Space :=
  if s.segments.length < 2 then none else some ⟨s.segments.dropLast⟩

def name (s : Space) : String := s.segments.getLast?.getD ""

def isTopLevel (s : Space) : Bool := s.segments.length == 1

/-- A space is well formed if it has a segment and none is empty. -/
def isWellFormed (s : Space) : Bool := !s.segments.isEmpty && s.segments.all (· != "")

/-- The space with the given segments, which have to be well formed. -/
def ofSegments (segments : List String) : Except ReferenceError Space :=
  if (Space.mk segments).isWellFormed then .ok ⟨segments⟩
  else .error (.malformed (".".intercalate segments))

/-- Whether `s` is `scope` or lies inside it. -/
def isWithin (s scope : Space) : Bool := scope.segments.isPrefixOf s.segments

@[simp] theorem parent_child (s : Space) (name : String) (h : s.segments ≠ []) :
    (s.child name).parent = some s := by
  obtain ⟨segments⟩ := s
  cases segments with
  | nil => exact absurd rfl h
  | cons a l =>
    simp only [child, parent, List.cons_append, List.length_cons, List.length_append]
    rw [← List.cons_append, List.dropLast_concat, if_neg (by omega)]

@[simp] theorem name_child (s : Space) (name : String) : (s.child name).name = name := by
  simp [child, Space.name]

/-- The non-empty beginnings of a list, shortest first. -/
def beginnings : List String → List (List String)
  | [] => []
  | a :: rest => [a] :: (beginnings rest).map (a :: ·)

/-- The space itself and every space that encloses it. -/
def lineage (s : Space) : List Space := s :: (beginnings s.segments.dropLast).map Space.mk

theorem mem_beginnings {l b : List String} : b ∈ beginnings l ↔ b ≠ [] ∧ b <+: l := by
  induction l generalizing b with
  | nil => simp [beginnings]
  | cons a l ih =>
    cases b with
    | nil => simp [beginnings]
    | cons c b =>
      by_cases h : b = []
      · simp [beginnings, ih, h]
      · simp only [beginnings, List.mem_cons, List.mem_map, ih, List.cons_prefix_cons]
        grind

theorem self_mem_lineage (s : Space) : s ∈ s.lineage := .head _

/-- With a space its enclosing space is in the lineage. -/
theorem parent_mem_lineage {s t p : Space} (h : t ∈ s.lineage) (hp : t.parent = some p) :
    p ∈ s.lineage := by
  obtain ⟨t⟩ := t
  simp only [parent] at hp
  split at hp
  · cases hp
  next hlen =>
    obtain rfl := Option.some.inj hp
    have hne : t.dropLast ≠ [] := fun h => by
      have := congrArg List.length h
      simp only [List.length_dropLast, List.length_nil] at this
      omega
    refine .tail _ (List.mem_map.2 ⟨t.dropLast, mem_beginnings.2 ⟨hne, ?_⟩, rfl⟩)
    rcases List.mem_cons.1 h with rfl | h
    · exact List.prefix_rfl
    · obtain ⟨b, hb, hbt⟩ := List.mem_map.1 h
      obtain rfl : b = t := congrArg segments hbt
      exact (List.dropLast_prefix b).trans (mem_beginnings.1 hb).2

end Space

namespace Page

def inSpace (name : String) (space : Space) : Page := ⟨some space, name⟩

def relative (name : String) : Page := ⟨none, name⟩

/-- The space of the page, which a relative page does not name. -/
def requireSpace (p : Page) : Except ReferenceError Space :=
  match p.space with
  | some space => .ok space
  | none => .error (.missingSpace p.name)

/-- Completes a relative page; any other page stays as it is. -/
def orInSpace (p : Page) (space : Space) : Page :=
  match p.space with
  | some _ => p
  | none => inSpace p.name space

/-- The page of the same name in another space. -/
def movedTo (p : Page) (space : Space) : Page := inSpace p.name space

/-- Whether the page lives directly in `space`. -/
def isIn (p : Page) (space : Space) : Bool := p.space == some space

def isWellFormed (p : Page) : Bool := p.name != "" && p.space.all Space.isWellFormed

end Page

namespace Entity

/-- The space that the entity is or lives in. -/
def space? : Entity → Option Space
  | .space s => some s
  | .page p => p.space
  | .attachment a => a.page.space

/-- The page that the entity is or belongs to. -/
def page? : Entity → Option Page
  | .space _ => none
  | .page p => some p
  | .attachment a => some a.page

end Entity

end WikiMount
