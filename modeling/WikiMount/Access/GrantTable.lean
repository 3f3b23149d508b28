import WikiMount.Access.Policy

/-! # Grant tables
A grant table decides by its most specific matching rule: a page before a nested space before an
enclosing space before the whole wiki. Among equally specific rules a denial wins, and where no rule
matches the default applies. -/

namespace WikiMount

/-- Where a rule applies: everywhere, in a space with all it contains, or on a page with its
attachments. -/
inductive Scope
  | wiki
  | space (space : Space)
  | page (page : Page)
deriving DecidableEq

inductive Effect
  | allow
  | deny
deriving DecidableEq

/-- How closely a scope fits a target: by the depth of a space, or as exactly its page. -/
inductive Specificity
  | depth (n : Nat)
  | exact
deriving DecidableEq

def Specificity.isBelow : Specificity → Specificity → Bool
  | .depth m, .depth n => m < n
  | .depth _, .exact => true
  | .exact, _ => false

/-- How closely the scope fits the target, if it applies to it at all. -/
def Scope.specificity? (scope : Scope) (target : Entity) : Option Specificity :=
  match scope with
  | .wiki => some (.depth 0)
  | .space s =>
    match target.space? with
    | some t => if t.isWithin s then some (.depth s.segments.length) else none
    | none => none
  | .page p => if target.page? = some p then some .exact else none

structure Rule where
  right : Right
  scope : Scope
  effect : Effect
deriving DecidableEq

structure GrantTable where
  fallback : Effect
  rules : List Rule
deriving DecidableEq

namespace GrantTable

/-- Allows what no rule denies. -/
def permissive : GrantTable := ⟨.allow, []⟩

/-- Denies what no rule allows. -/
def restrictive : GrantTable := ⟨.deny, []⟩

instance : Inhabited GrantTable := ⟨permissive⟩

def add (t : GrantTable) (rule : Rule) : GrantTable := { t with rules := t.rules ++ [rule] }

/-- The better of the best rule so far and a further one: the more specific, and on a tie a
denial. -/
def prefer (best : Option (Specificity × Effect)) (found : Specificity × Effect) :
    Option (Specificity × Effect) :=
  match best with
  | none => some found
  | some (specificity, effect) =>
    if found.1.isBelow specificity || (found.1 == specificity && effect == .deny) then best
    else some found

/-- The specificity and effect of every rule for the right that applies to the target, in order. -/
def applicable (t : GrantTable) (right : Right) (target : Entity) : List (Specificity × Effect) :=
  t.rules.filterMap fun rule =>
    if rule.right = right then (rule.scope.specificity? target).map (·, rule.effect) else none

def evaluate (t : GrantTable) (right : Right) (target : Entity) : Effect :=
  match (t.applicable right target).foldl prefer none with
  | some (_, effect) => effect
  | none => t.fallback

def policy (t : GrantTable) : Policy where
  name := "GrantTable"
  grants right target := t.evaluate right target == .allow

end GrantTable

end WikiMount
