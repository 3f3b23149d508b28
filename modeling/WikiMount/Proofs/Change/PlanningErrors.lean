import WikiMount.Proofs.Change.Planned

/-!
# How planning fails

Planning a change can fail in many ways. An error that says how far a batch has come is made where batches
are run, though, and one that misses the directory of a letter group where directories are looked for. The
lemmas say of each function that plans a change within a directory that no error of it is one of these.
-/

namespace WikiMount

/-- Where the answer is an error, it is of this sort. -/
def ErrsOnly {ε α : Type} (sort : ε → Prop) (answer : Except ε α) : Prop :=
  ∀ e, answer = .error e → sort e

section Answers

variable {ε α β : Type} {sort : ε → Prop} {answer : Except ε α}

@[simp] theorem errsOnly_ok (a : α) : ErrsOnly sort (.ok a) := fun _ h => nomatch h

@[simp] theorem errsOnly_error {e : ε} : ErrsOnly sort (.error e : Except ε α) ↔ sort e :=
  ⟨fun h => h e rfl, fun h _ he => Except.error.inj he ▸ h⟩

theorem ErrsOnly.bind {f : α → Except ε β} (h : ErrsOnly sort answer)
    (hf : ∀ a, answer = .ok a → ErrsOnly sort (f a)) : ErrsOnly sort (answer >>= f) := by
  cases answer with
  | error e => exact errsOnly_error.2 (errsOnly_error.1 h)
  | ok a => exact hf a rfl

@[simp] theorem errsOnly_map {f : α → β} : ErrsOnly sort (answer.map f) ↔ ErrsOnly sort answer := by
  cases answer <;> simp [Except.map]

/-- A check that is made before going on. -/
theorem ErrsOnly.guard {failed : Prop} [Decidable failed] {e : ε} {f : β → Except ε α} (he : sort e)
    (h : ErrsOnly sort answer) : ErrsOnly sort (if failed then .error e >>= f else answer) := by
  split
  · exact errsOnly_error.2 he
  · exact h

theorem ErrsOnly.mono {sort' : ε → Prop} (h : ErrsOnly sort answer) (hsort : ∀ e, sort e → sort' e) :
    ErrsOnly sort' answer := fun e he => hsort e (h e he)

end Answers

/-- The error does not say how far a batch has come. -/
@[simp] def ViewError.Unbatched (e : ViewError) : Prop :=
  ∀ batch done total cause, e ≠ .internal (.partiallyApplied batch done total cause)

/-- The error is neither about a batch nor about the directory of a letter group. -/
@[simp] def ViewError.Plain (e : ViewError) : Prop :=
  e.Unbatched ∧ e ≠ .internal .groupWithoutDirectory

theorem ViewError.Plain.unbatched {e : ViewError} (h : e.Plain) : e.Unbatched := h.1

@[simp] theorem ViewError.ofStorage_ne (e : StorageError) (batch : Batch) (done total : Nat)
    (cause : StorageError) :
    ViewError.ofStorage e ≠ .internal (.partiallyApplied batch done total cause) := by
  cases e <;> simp [ofStorage, ofReference]

@[simp] theorem ViewError.ofStorage_ne_groupWithoutDirectory (e : StorageError) :
    ViewError.ofStorage e ≠ .internal .groupWithoutDirectory := by
  cases e <;> simp [ofStorage, ofReference]

@[simp] theorem plain_viewed {α : Type} (answer : Except StorageError α) :
    ErrsOnly ViewError.Plain (viewed answer) := by
  cases answer <;> simp [viewed]

@[simp] theorem Tree.plain_document (t : Tree) (r : Repository) (id : Nat) :
    ErrsOnly ViewError.Plain (t.document r id) := by
  unfold document
  repeat' split
  all_goals simp

namespace Context

variable (ctx : Context) (t : Tree)

@[simp] theorem plain_require (right : Right) (target : Entity) :
    ErrsOnly ViewError.Plain (ctx.require right target) := by
  unfold require
  split <;> simp

@[simp] theorem plain_requireScratch : ErrsOnly ViewError.Plain ctx.requireScratch := by
  unfold requireScratch
  split <;> simp

theorem plain_requireAll (right : Right) (pages : List Page) :
    ErrsOnly ViewError.Plain (ctx.requireAll right pages) := by
  induction pages with
  | nil => exact errsOnly_ok ()
  | cons page rest ih =>
    simp only [requireAll]
    split
    next e he => exact errsOnly_error.2 (ctx.plain_require _ _ e he)
    · exact ih

/-! ## Adding -/

theorem plain_planPage (page : Page) (parent : Document → Option Page) :
    ErrsOnly ViewError.Plain (ctx.planPage page parent) := by
  refine .bind (ctx.plain_require _ _) fun _ _ => .bind ?_ fun _ _ => errsOnly_ok _
  unfold placeholder
  split <;> simp

theorem plain_planScratchWrite (path : String) (content : Option Bytes) :
    ErrsOnly ViewError.Plain (ctx.planScratchWrite path content) :=
  .bind ctx.plain_requireScratch fun _ _ => errsOnly_ok _

theorem plain_planAddTo (node child : Nat) (content : Option Bytes) :
    ErrsOnly ViewError.Plain (ctx.planAddTo t node child content) := by
  have htext : ErrsOnly ViewError.Plain (ctx.planText t node content) := by
    unfold planText
    repeat' split
    all_goals simp
  have hpage : ∀ page, ErrsOnly ViewError.Plain (ctx.planAddToPage t node page child content) := by
    intro page
    refine .bind (ctx.plain_require _ _) fun _ _ => ?_
    repeat' split
    all_goals simp [htext, plain_planScratchWrite, plain_planPage]
  unfold planAddTo
  split <;> simp [hpage, plain_planScratchWrite, plain_planPage]

/-! ## Removing -/

theorem plain_planDelete (page : Page) : ErrsOnly ViewError.Plain (ctx.planDelete page) := by
  unfold planDelete
  split
  next e he => exact errsOnly_error.2 (ctx.plain_require _ _ e he)
  · exact errsOnly_ok _

theorem plain_planDeleteAll (batch : Batch) (pages : Except StorageError (List Page)) :
    ErrsOnly ViewError.Plain (ctx.planDeleteAll batch pages) := by
  refine .bind (plain_viewed pages) fun pages _ => ?_
  exact .bind (ctx.plain_requireAll .delete pages) fun _ _ => errsOnly_ok _

theorem plain_planScratchRemove (path : String) :
    ErrsOnly ViewError.Plain (ctx.planScratchRemove path) := by
  unfold planScratchRemove
  split
  next e he => exact errsOnly_error.2 (ctx.plain_requireScratch e he)
  · split <;> simp

theorem plain_planRemoveFrom (node child : Nat) :
    ErrsOnly ViewError.Plain (ctx.planRemoveFrom t node child) := by
  have hpage : ∀ page, ErrsOnly ViewError.Plain (ctx.planRemoveFromPage t page child) := by
    intro page
    refine .bind (ctx.plain_require _ _) fun _ _ => ?_
    split <;> simp [plain_planScratchRemove, plain_planDelete]
  unfold planRemoveFrom
  split <;> simp [hpage, plain_planScratchRemove, plain_planDelete, plain_planDeleteAll]

end Context

end WikiMount
