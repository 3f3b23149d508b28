import WikiMount.Proofs.Change.PlanningErrors
import WikiMount.Service

/-!
# Errors that report no batch

An error that says how far a batch has come is made where batches are run and nowhere else. Looking
nodes up, reading them and planning changes can fail in many ways, and the lemmas say of each of these
functions that no error of it reports a batch. So whoever is told how far a batch has come knows that
there was one.
-/

namespace WikiMount

/-- Where the answer is an error, that reports no batch. -/
def Unbatched {α : Type} (answer : Except ViewError α) : Prop :=
  ∀ e, answer = .error e → e.Unbatched

section Answers

variable {α β : Type} {answer : Except ViewError α}

@[simp] theorem unbatched_ok (a : α) : Unbatched (.ok a : Except ViewError α) := errsOnly_ok a

@[simp] theorem unbatched_error {e : ViewError} :
    Unbatched (.error e : Except ViewError α) ↔ e.Unbatched :=
  errsOnly_error

/-- Plain errors do not report batches. -/
theorem Unbatched.of_plain (h : ErrsOnly ViewError.Plain answer) : Unbatched answer :=
  h.mono fun _ => ViewError.Plain.unbatched

theorem Unbatched.bind {f : α → Except ViewError β} (h : Unbatched answer)
    (hf : ∀ a, Unbatched (f a)) : Unbatched (answer >>= f) :=
  ErrsOnly.bind h fun a _ => hf a

@[simp] theorem unbatched_map {f : α → β} : Unbatched (answer.map f) ↔ Unbatched answer :=
  errsOnly_map

theorem ViewError.unbatched_ofReference (e : ReferenceError) : (ofReference e).Unbatched := by
  simp [ofReference]

@[simp] theorem unbatched_viewed (x : Except StorageError α) : Unbatched (viewed x) :=
  .of_plain (plain_viewed x)

/-- A check that is made before going on. -/
theorem Unbatched.guard {failed : Prop} [Decidable failed] {e : ViewError}
    {f : β → Except ViewError α} (he : e.Unbatched) (h : Unbatched answer) :
    Unbatched (if failed then .error e >>= f else answer) :=
  ErrsOnly.guard he h

end Answers

/-! ## Looking up -/

@[simp] theorem LetterGroup.unbatched_ofToken (token : String) : Unbatched (ofToken token) := by
  unfold ofToken ofName ofKey
  repeat' split
  all_goals simp

theorem Tree.unbatched_insert (t : Tree) (parent : Nat) (kind : NodeKind) (segment : String) :
    Unbatched (t.insert parent kind segment) := by
  have hvalid : Unbatched (validate (t.kind parent) kind) := by
    unfold validate
    repeat' split
    all_goals simp [ViewError.ofReference]
  unfold insert
  split
  next e he => exact unbatched_error.2 (hvalid e he)
  · exact unbatched_ok _

@[simp] theorem Tree.unbatched_document (t : Tree) (r : Repository) (id : Nat) :
    Unbatched (t.document r id) :=
  .of_plain (t.plain_document r id)

@[simp] theorem Tree.unbatched_directory (t : Tree) (node child : Nat) :
    Unbatched (t.directory node child) := by
  unfold directory
  repeat' split
  all_goals simp

namespace Context

variable (ctx : Context) (t : Tree)

@[simp] theorem unbatched_require (right : Right) (target : Entity) :
    Unbatched (ctx.require right target) :=
  .of_plain (ctx.plain_require right target)

@[simp] theorem unbatched_requireScratch : Unbatched ctx.requireScratch :=
  .of_plain ctx.plain_requireScratch

@[simp] theorem unbatched_requireParent (id : Nat) : Unbatched (requireParent t id) := by
  unfold requireParent
  split <;> simp

theorem unbatched_decode (kind : NodeKind) (path token : String) (last : Bool) :
    Unbatched (ctx.decode kind path token last) := by
  have hbase : Unbatched (decodeBaseView token) := by
    unfold decodeBaseView
    repeat' split
    all_goals simp
  have hspace : ∀ space, Unbatched (ctx.decodeInSpace space token last) := by
    intro space
    unfold decodeInSpace
    repeat' split
    all_goals simp
  have hpage : ∀ page, Unbatched (ctx.decodeInPage page token last) := by
    intro page
    unfold decodeInPage
    repeat' split
    all_goals simp [ViewError.ofReference]
  unfold decode
  repeat' split
  all_goals simp [ViewError.ofReference, hbase, hpage]
  next he => exact hspace _ _ he

theorem unbatched_step (id : Nat) (token : String) (last : Bool) :
    Unbatched (ctx.step t id token last) := by
  unfold step
  split
  next e he => exact unbatched_error.2 (ctx.unbatched_decode _ _ _ _ e he)
  · exact t.unbatched_insert _ _ _

theorem unbatched_resolve (tokens : List String) (id : Nat) :
    Unbatched (ctx.resolve t id tokens).1 := by
  induction tokens generalizing t id with
  | nil => exact unbatched_ok id
  | cons token rest ih =>
    simp only [resolve]
    split
    next e he => exact unbatched_error.2 (ctx.unbatched_step _ _ _ _ e he)
    next child t' _ => exact ih t' child

theorem unbatched_resolvePath (path : String) : Unbatched (ctx.resolvePath t path).1 := by
  unfold resolvePath
  split
  · simp [ViewError.ofPath]
  · exact ctx.unbatched_resolve t _ _

@[simp] theorem unbatched_lookup (path : String) : Unbatched (ctx.lookup path) := by
  have hpath := ctx.unbatched_resolvePath .new path
  unfold lookup
  split
  · exact unbatched_ok _
  next e _ hr =>
    rw [hr] at hpath
    exact unbatched_error.2 (unbatched_error.1 hpath)

@[simp] theorem unbatched_lookupTwo (path other : String) : Unbatched (ctx.lookupTwo path other) := by
  unfold lookupTwo
  split
  next e he => exact unbatched_error.2 (ctx.unbatched_lookup path e he)
  next id t _ =>
    have hother := ctx.unbatched_resolvePath t other
    split
    · exact unbatched_ok _
    next e _ hr =>
      rw [hr] at hother
      exact unbatched_error.2 (unbatched_error.1 hother)

/-! ## Reading -/

theorem unbatched_requireReadable (kind : NodeKind) : Unbatched (ctx.requireReadable kind) := by
  unfold requireReadable
  split <;> simp

theorem unbatched_content (id : Nat) : Unbatched (ctx.content t id).1 := by
  have hexported : ∀ d format, Unbatched (exported d format) := by
    intro d format
    unfold exported
    repeat' split
    all_goals simp
  have hscratch : ∀ path, Unbatched (ctx.scratchContent path) := by
    intro path
    unfold scratchContent
    split
    next e he => exact unbatched_error.2 (ctx.unbatched_requireScratch e he)
    · split <;> simp
  have hfetch : Unbatched (t.fetch ctx.repository id).1 := by
    have hdocument := t.unbatched_document ctx.repository id
    unfold Tree.fetch
    split
    · exact unbatched_ok _
    next e he => exact unbatched_error.2 (hdocument e he)
  unfold content
  split
  · split
    · exact hexported _ _
    next e _ he =>
      rw [he] at hfetch
      exact unbatched_error.2 (unbatched_error.1 hfetch)
  · exact unbatched_viewed _
  · exact hscratch _
  · simp

theorem unbatched_list (path : String) : Unbatched (ctx.list path) := by
  refine .bind (ctx.unbatched_lookup path) fun ⟨id, t⟩ => ?_
  exact .guard (by simp) (unbatched_ok _)

theorem unbatched_stat (path : String) : Unbatched (ctx.stat path) := by
  refine .bind (ctx.unbatched_lookup path) fun ⟨id, t⟩ => ?_
  refine .bind (ctx.unbatched_requireReadable _) fun _ => ?_
  dsimp only
  split
  · refine .bind ?_ fun ⟨_, _⟩ => .bind ?_ fun _ => unbatched_ok _
    · unfold times
      split <;> simp
    · unfold fileSize
      split
      · exact unbatched_ok _
      · exact unbatched_map.2 (ctx.unbatched_content t id)
  · exact unbatched_ok _

theorem unbatched_read (path : String) : Unbatched (ctx.read path) := by
  refine .bind (ctx.unbatched_lookup path) fun ⟨id, t⟩ => ?_
  exact .bind (ctx.unbatched_requireReadable _) fun _ => ctx.unbatched_content t id

/-! ## Planning -/

theorem unbatched_planAdd (node child : Nat) (content : Option Bytes) :
    Unbatched (ctx.planAdd t node child content) := by
  unfold planAdd
  split
  · simp
  · split
    next e he => exact unbatched_error.2 (t.unbatched_directory node child e he)
    · exact .of_plain (ctx.plain_planAddTo t _ child content)

theorem unbatched_planRemove (node child : Nat) : Unbatched (ctx.planRemove t node child) := by
  unfold planRemove
  split
  next e he => exact unbatched_error.2 (t.unbatched_directory node child e he)
  · exact .of_plain (ctx.plain_planRemoveFrom t _ child)

theorem unbatched_requireAll (right : Right) (pages : List Page) :
    Unbatched (ctx.requireAll right pages) :=
  .of_plain (ctx.plain_requireAll right pages)

theorem unbatched_checkAllCarried (space : Space) (pages : List Page) :
    Unbatched (ctx.checkAllCarried space pages) := by
  have hone : ∀ page, Unbatched (ctx.checkCarried space page) := by
    intro page
    unfold checkCarried
    split
    next e he => exact unbatched_error.2 (ctx.unbatched_require _ _ e he)
    · split <;> simp
  induction pages with
  | nil => exact unbatched_ok ()
  | cons page rest ih =>
    simp only [checkAllCarried]
    split
    next e he => exact unbatched_error.2 (hone page e he)
    · exact ih

theorem unbatched_planMovePage (page other : Page) : Unbatched (ctx.planMovePage page other) := by
  refine .bind (ctx.unbatched_require _ _) fun _ => .bind ?_ fun space => ?_
  · cases other.requireSpace with
    | error e => exact unbatched_error.2 (ViewError.unbatched_ofReference e)
    | ok space => exact unbatched_ok space
  · refine .guard (by simp) (.guard (by simp) ?_)
    refine .bind (ctx.unbatched_require _ _) fun _ => .bind (unbatched_viewed _) fun children => ?_
    exact .bind (ctx.unbatched_requireAll _ _) fun _ => unbatched_ok _

theorem unbatched_planMoveSpace (space other : Space) : Unbatched (ctx.planMoveSpace space other) := by
  refine .guard (by simp) (.bind (ctx.unbatched_require _ _) fun _ => ?_)
  refine .bind (unbatched_viewed _) fun pages => ?_
  exact .bind (ctx.unbatched_checkAllCarried _ _) fun _ => unbatched_ok _

theorem unbatched_planMove (source destination : Nat) :
    Unbatched (ctx.planMove t source destination) := by
  unfold planMove
  split
  · simp
  · split
    · simp
    · split
      · exact ctx.unbatched_planMovePage _ _
      · split
        · exact ctx.unbatched_planMoveSpace _ _
        · simp
      · exact .bind (ctx.unbatched_require _ _) fun _ =>
          .bind (ctx.unbatched_require _ _) fun _ => unbatched_ok _
      · simp

end Context

end WikiMount
