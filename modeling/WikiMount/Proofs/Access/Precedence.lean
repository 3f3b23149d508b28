import Mathlib.Data.List.Induction
import Mathlib.Order.WithBot
import WikiMount.Access.GrantTable

/-!
# Which rule decides

A grant table goes through its rules in order and keeps the best one so far. What it ends with is a
strongest one of the rules that apply: no other is more specific, and none that is as specific denies
unless it denies itself. This determines the answer from the rules as a set, so neither their order nor
their number matters, and a rule that is added can only turn the answer to its own effect.
-/

namespace WikiMount

/-- The scope takes in the target. -/
def Scope.Covers (target : Entity) : Scope → Prop
  | .wiki => True
  | .space s => ∃ space, target.space? = some space ∧ s.segments <+: space.segments
  | .page p => target.page? = some p

/-- How narrow a scope is: a page is narrower than any space, and a space without segments is as wide as the
wiki. -/
def Scope.narrowness : Scope → WithTop Nat
  | .wiki => .some 0
  | .space s => .some s.segments.length
  | .page _ => ⊤

/-- The rule has a say in whether the right is granted on the target. -/
def Rule.Governs (rule : Rule) (right : Right) (target : Entity) : Prop :=
  rule.right = right ∧ rule.scope.Covers target

/-- No rule of the table that has a say is more specific. -/
structure GrantTable.Decisive (t : GrantTable) (right : Right) (target : Entity) (rule : Rule) : Prop where
  mem : rule ∈ t.rules
  governs : rule.Governs right target
  narrowest : ∀ other ∈ t.rules, other.Governs right target →
    other.scope.narrowness ≤ rule.scope.narrowness

/-! ## Specificity -/

def Specificity.narrowness : Specificity → WithTop Nat
  | .depth n => .some n
  | .exact => ⊤

@[simp] theorem Specificity.narrowness_inj {a b : Specificity} :
    a.narrowness = b.narrowness ↔ a = b := by
  cases a <;> cases b <;> simp [narrowness]

theorem Specificity.isBelow_iff {a b : Specificity} :
    a.isBelow b = true ↔ a.narrowness < b.narrowness := by
  cases a <;> cases b <;> simp [isBelow, narrowness]

theorem Scope.specificity?_eq_some {scope : Scope} {target : Entity} {found : Specificity} :
    scope.specificity? target = some found ↔
      scope.Covers target ∧ found.narrowness = scope.narrowness := by
  have hdepth : ∀ n : Nat, found.narrowness = .some n ↔ .depth n = found := fun n => by
    rw [eq_comm, ← Specificity.narrowness_inj]
    rfl
  have hexact : found.narrowness = ⊤ ↔ .exact = found := by
    rw [eq_comm, ← Specificity.narrowness_inj]
    rfl
  cases scope with
  | wiki =>
    simpa only [specificity?, Covers, narrowness, true_and, Option.some.injEq] using (hdepth 0).symm
  | space s =>
    cases hspace : target.space? with
    | none => simp [specificity?, Covers, hspace]
    | some space =>
      simp only [specificity?, Covers, narrowness, hdepth, hspace, Space.isWithin,
        List.isPrefixOf_iff_prefix, Option.ite_none_right_eq_some, Option.some.injEq, exists_eq_left']
  | page p => simp [specificity?, Covers, narrowness, hexact]

namespace GrantTable

variable {t t' : GrantTable} {right : Right} {target : Entity} {rule : Rule} {effect : Effect}
  {found : List (Specificity × Effect)} {best : Option (Specificity × Effect)}
  {a : Specificity × Effect}

theorem mem_applicable : a ∈ t.applicable right target ↔
    ∃ rule ∈ t.rules, rule.Governs right target ∧ a.1.narrowness = rule.scope.narrowness ∧
      rule.effect = a.2 := by
  obtain ⟨specificity, effect⟩ := a
  simp only [applicable, List.mem_filterMap, Rule.Governs]
  refine exists_congr fun rule => and_congr_right fun _ => ?_
  split
  next hright => simp [hright, Scope.specificity?_eq_some, and_assoc]
  next hright => simp [hright]

theorem exists_applicable (hrule : rule ∈ t.rules) (h : rule.Governs right target) :
    ∃ a ∈ t.applicable right target, a.1.narrowness = rule.scope.narrowness ∧ rule.effect = a.2 := by
  obtain ⟨specificity, hsame⟩ : ∃ s : Specificity, s.narrowness = rule.scope.narrowness := by
    cases rule.scope with
    | wiki => exact ⟨.depth 0, rfl⟩
    | space s => exact ⟨.depth s.segments.length, rfl⟩
    | page p => exact ⟨.exact, rfl⟩
  exact ⟨(specificity, rule.effect), mem_applicable.2 ⟨rule, hrule, h, hsame, rfl⟩, hsame, rfl⟩

/-! ## The best rule so far -/

/-- The best of what was found: nothing is narrower, and it denies if anything as narrow does. -/
def Strongest (found : List (Specificity × Effect)) : Option (Specificity × Effect) → Prop
  | none => found = []
  | some best => best ∈ found ∧ ∀ a ∈ found, a.1.narrowness ≤ best.1.narrowness ∧
      (a.1 = best.1 → a.2 = .deny → best.2 = .deny)

theorem Strongest.prefer (h : Strongest found best) : Strongest (found ++ [a]) (prefer best a) := by
  cases best with
  | none =>
    obtain rfl : found = [] := h
    simp [GrantTable.prefer, Strongest]
  | some best =>
    obtain ⟨hmem, hbest⟩ := h
    simp only [GrantTable.prefer]
    split
    next hkept =>
      rw [Bool.or_eq_true, Specificity.isBelow_iff, Bool.and_eq_true, beq_iff_eq, beq_iff_eq] at hkept
      refine ⟨List.mem_append_left _ hmem, fun b hb => ?_⟩
      rcases List.mem_append.1 hb with hb | hb
      · exact hbest b hb
      · obtain rfl := List.mem_singleton.1 hb
        rcases hkept with hbelow | ⟨hsame, hdeny⟩
        · exact ⟨hbelow.le, fun hsame => absurd (hsame ▸ hbelow) (lt_irrefl _)⟩
        · exact ⟨(congrArg _ hsame).le, fun _ _ => hdeny⟩
    next hreplaced =>
      rw [Bool.or_eq_true, Specificity.isBelow_iff, Bool.and_eq_true, beq_iff_eq, beq_iff_eq, not_or,
        not_lt] at hreplaced
      obtain ⟨hbelow, hnot⟩ := hreplaced
      refine ⟨List.mem_append_right _ (.head _), fun b hb => ?_⟩
      rcases List.mem_append.1 hb with hb | hb
      · obtain ⟨hle, hdenies⟩ := hbest b hb
        refine ⟨hle.trans hbelow, fun hsame hdeny => ?_⟩
        -- A denial that is as narrow as the new rule is as narrow as the best one so far, which denies.
        have heq : b.1 = best.1 :=
          Specificity.narrowness_inj.1 (le_antisymm hle (hsame ▸ hbelow))
        exact absurd ⟨hsame ▸ heq, hdenies heq hdeny⟩ hnot
      · obtain rfl := List.mem_singleton.1 hb
        exact ⟨le_rfl, fun _ hdeny => hdeny⟩

theorem strongest_foldl (found : List (Specificity × Effect)) :
    Strongest found (found.foldl GrantTable.prefer none) := by
  induction found using List.reverseRecOn with
  | nil => rfl
  | append_singleton found a ih =>
    rw [List.foldl_append]
    exact ih.prefer

/-! ## The answer -/

theorem evaluate_of_ungoverned (h : ∀ rule ∈ t.rules, ¬rule.Governs right target) :
    t.evaluate right target = t.fallback := by
  have hnone : t.applicable right target = [] := by
    refine List.eq_nil_iff_forall_not_mem.2 fun a ha => ?_
    obtain ⟨rule, hrule, hgoverns, _⟩ := mem_applicable.1 ha
    exact h rule hrule hgoverns
  simp [evaluate, hnone]

/-- Where rules have a say, the answer is the effect of one of the narrowest, and a denial if any of them
denies. -/
theorem evaluate_of_governed (h : ∃ rule ∈ t.rules, rule.Governs right target) :
    (∃ rule, t.Decisive right target rule ∧ rule.effect = t.evaluate right target) ∧
      ∀ rule, t.Decisive right target rule → rule.effect = .deny →
        t.evaluate right target = .deny := by
  obtain ⟨governing, hmem, hsay⟩ := h
  have hstrongest := strongest_foldl (t.applicable right target)
  simp only [evaluate]
  cases hfold : (t.applicable right target).foldl GrantTable.prefer none with
  | none =>
    rw [hfold] at hstrongest
    have hnone : t.applicable right target = [] := hstrongest
    obtain ⟨a, ha, _⟩ := exists_applicable hmem hsay
    rw [hnone] at ha
    cases ha
  | some best =>
    rw [hfold] at hstrongest
    obtain ⟨hbest, hall⟩ := hstrongest
    obtain ⟨rule, hrule, hgoverns, hnarrow, heffect⟩ := mem_applicable.1 hbest
    have hnarrowest : ∀ other ∈ t.rules, other.Governs right target →
        other.scope.narrowness ≤ rule.scope.narrowness := by
      intro other hother hsay
      obtain ⟨a, ha, hsame, _⟩ := exists_applicable hother hsay
      rw [← hsame, ← hnarrow]
      exact (hall a ha).1
    refine ⟨⟨rule, ⟨hrule, hgoverns, hnarrowest⟩, heffect⟩, fun other hother hdeny => ?_⟩
    obtain ⟨a, ha, hsame, heffect'⟩ := exists_applicable hother.mem hother.governs
    have hle : best.1.narrowness ≤ a.1.narrowness := by
      rw [hsame, hnarrow]
      exact hother.narrowest rule hrule hgoverns
    exact (hall a ha).2 (Specificity.narrowness_inj.1 (le_antisymm (hall a ha).1 hle))
      (heffect'.symm.trans hdeny)

theorem evaluate_eq_deny_iff (h : ∃ rule ∈ t.rules, rule.Governs right target) :
    t.evaluate right target = .deny ↔ ∃ rule, t.Decisive right target rule ∧ rule.effect = .deny := by
  obtain ⟨⟨rule, hrule, heffect⟩, hdenies⟩ := evaluate_of_governed h
  constructor
  · intro hdeny
    exact ⟨rule, hrule, heffect.trans hdeny⟩
  · rintro ⟨other, hother, hdeny⟩
    exact hdenies other hother hdeny

theorem Decisive.of_rules (h : t'.Decisive right target rule) (hmem : rule ∈ t.rules)
    (hrules : ∀ rule ∈ t.rules, rule ∈ t'.rules) : t.Decisive right target rule where
  mem := hmem
  governs := h.governs
  narrowest other hother hsay := h.narrowest other (hrules other hother) hsay

/-- A rule that is no wider than a decisive one is decisive. -/
theorem Decisive.of_le {other : Rule} (h : t.Decisive right target rule) (hmem : other ∈ t.rules)
    (hgoverns : other.Governs right target) (hle : rule.scope.narrowness ≤ other.scope.narrowness) :
    t.Decisive right target other where
  mem := hmem
  governs := hgoverns
  narrowest further hfurther hsay := (h.narrowest further hfurther hsay).trans hle

/-- The answer depends on which rules there are, and not on their order or number. -/
theorem evaluate_congr (hfallback : t'.fallback = t.fallback)
    (hrules : ∀ rule, rule ∈ t'.rules ↔ rule ∈ t.rules) :
    t'.evaluate right target = t.evaluate right target := by
  by_cases h : ∃ rule ∈ t.rules, rule.Governs right target
  · have h' : ∃ rule ∈ t'.rules, rule.Governs right target := by
      simpa only [hrules] using h
    have hdeny : t'.evaluate right target = .deny ↔ t.evaluate right target = .deny := by
      rw [evaluate_eq_deny_iff h, evaluate_eq_deny_iff h']
      refine exists_congr fun rule => and_congr_left fun _ => ⟨fun hr => ?_, fun hr => ?_⟩
      · exact hr.of_rules ((hrules rule).1 hr.mem) fun rule => (hrules rule).2
      · exact hr.of_rules ((hrules rule).2 hr.mem) fun rule => (hrules rule).1
    cases ht : t.evaluate right target <;> cases ht' : t'.evaluate right target <;> simp_all
  · have hnone : ∀ rule ∈ t.rules, ¬rule.Governs right target := fun rule hrule hsay =>
      h ⟨rule, hrule, hsay⟩
    have hnone' : ∀ rule ∈ t'.rules, ¬rule.Governs right target := fun rule hrule =>
      hnone rule ((hrules rule).1 hrule)
    rw [evaluate_of_ungoverned hnone, evaluate_of_ungoverned hnone', hfallback]

/-- A table that answers with an effect goes on to do so when a rule of that effect is added. -/
theorem evaluate_added (hfallback : t'.fallback = t.fallback)
    (hrules : ∀ other, other ∈ t'.rules ↔ other = rule ∨ other ∈ t.rules)
    (h : t.evaluate right target = rule.effect) : t'.evaluate right target = rule.effect := by
  have hold : ∀ other ∈ t.rules, other ∈ t'.rules := fun other hother => (hrules other).2 (.inr hother)
  by_cases hsay : ∃ other ∈ t'.rules, other.Governs right target
  · obtain ⟨⟨deciding, hdeciding, heffect⟩, hdenies⟩ := evaluate_of_governed hsay
    rcases (hrules deciding).1 hdeciding.mem with rfl | hmem
    · exact heffect.symm
    -- The rule that decides was there before, and decided then.
    · have hbefore := hdeciding.of_rules hmem hold
      have hgoverned : ∃ other ∈ t.rules, other.Governs right target :=
        ⟨deciding, hmem, hdeciding.governs⟩
      cases hadded : rule.effect with
      | allow =>
        cases hdeny : deciding.effect with
        | allow => rw [← heffect, hdeny]
        | deny =>
          rw [(evaluate_of_governed hgoverned).2 deciding hbefore hdeny, hadded] at h
          cases h
      | deny =>
        obtain ⟨denying, hdenying, hdeny⟩ := (evaluate_eq_deny_iff hgoverned).1 (h.trans hadded)
        have hle := hdenying.narrowest deciding hmem hdeciding.governs
        exact hdenies denying
          (hdeciding.of_le (hold denying hdenying.mem) hdenying.governs hle) hdeny
  · have hnone' : ∀ other ∈ t'.rules, ¬other.Governs right target := fun other hother hgoverns =>
      hsay ⟨other, hother, hgoverns⟩
    have hnone : ∀ other ∈ t.rules, ¬other.Governs right target := fun other hother =>
      hnone' other (hold other hother)
    rw [evaluate_of_ungoverned hnone', hfallback, ← evaluate_of_ungoverned hnone, h]

/-- A table denies exactly where one of the narrowest rules that have a say denies, and answers with its
fallback where no rule has a say. It does so for its rules as a set: neither their order nor their number
matters, and adding a rule changes no answer that is the effect of the rule already. -/
theorem evaluate_decided (t : GrantTable) (right : Right) (target : Entity) :
    ((∀ rule ∈ t.rules, ¬rule.Governs right target) → t.evaluate right target = t.fallback) ∧
    ((∃ rule ∈ t.rules, rule.Governs right target) →
      (t.evaluate right target = .deny ↔
        ∃ rule, t.Decisive right target rule ∧ rule.effect = .deny)) ∧
    (∀ t' : GrantTable, t'.fallback = t.fallback → (∀ rule, rule ∈ t'.rules ↔ rule ∈ t.rules) →
      t'.evaluate right target = t.evaluate right target) ∧
    ∀ (t' : GrantTable) (rule : Rule), t'.fallback = t.fallback →
      (∀ other, other ∈ t'.rules ↔ other = rule ∨ other ∈ t.rules) →
      t.evaluate right target = rule.effect → t'.evaluate right target = rule.effect :=
  ⟨evaluate_of_ungoverned, evaluate_eq_deny_iff, fun _ => evaluate_congr, fun _ _ => evaluate_added⟩

/-- The rules for a page and for the spaces around it, in two orders, and with one more for the page. -/
theorem evaluate_decided_in_any_order :
    let main := Space.topLevel "Main"
    let page := Page.inSpace "A" (main.child "Sub")
    let target := Entity.attachment ⟨page, "a.txt"⟩
    let inner : Rule := ⟨.edit, .space (main.child "Sub"), .deny⟩
    let outer : Rule := ⟨.edit, .space main, .allow⟩
    let t : GrantTable := ⟨.allow, [⟨.edit, .wiki, .allow⟩, inner, outer]⟩
    let shuffled : GrantTable := ⟨.allow, [outer, inner, ⟨.edit, .wiki, .allow⟩, outer]⟩
    let denied : GrantTable := ⟨.allow, ⟨.edit, .page page, .deny⟩ :: t.rules⟩
    t.Decisive .edit target inner ∧ t.evaluate .edit target = .deny ∧
      shuffled.evaluate .edit target = .deny ∧ denied.evaluate .edit target = .deny ∧
      t.evaluate .view target = .allow := by
  intro main page target inner outer t shuffled denied
  have hinner : inner.Governs .edit target := ⟨rfl, main.child "Sub", rfl, List.prefix_rfl⟩
  have hdecisive : t.Decisive .edit target inner := by
    refine ⟨.tail _ (.head _), hinner, fun other hother _ => ?_⟩
    simp only [t, List.mem_cons, List.not_mem_nil, or_false] at hother
    obtain rfl | rfl | rfl := hother
    · exact WithTop.coe_le_coe.2 (Nat.zero_le 2)
    · exact le_rfl
    · exact WithTop.coe_le_coe.2 (Nat.le_succ 1)
  obtain ⟨_, hdenies, hsame, hadded⟩ := evaluate_decided t .edit target
  have hdeny : t.evaluate .edit target = .deny :=
    (hdenies ⟨inner, hdecisive.mem, hinner⟩).2 ⟨inner, hdecisive, rfl⟩
  have hshuffled : ∀ rule, rule ∈ shuffled.rules ↔ rule ∈ t.rules := by
    intro rule
    simp only [shuffled, t, List.mem_cons, List.not_mem_nil, or_false]
    grind
  refine ⟨hdecisive, hdeny, (hsame shuffled rfl hshuffled).trans hdeny, ?_, ?_⟩
  · exact hadded denied ⟨.edit, .page page, .deny⟩ rfl (fun _ => List.mem_cons) hdeny
  · refine (evaluate_decided t .view target).1 fun rule hrule hsay => ?_
    simp only [t, List.mem_cons, List.not_mem_nil, or_false] at hrule
    obtain rfl | rfl | rfl := hrule <;> cases hsay.1

end GrantTable

end WikiMount
