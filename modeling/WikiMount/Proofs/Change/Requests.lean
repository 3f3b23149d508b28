import WikiMount.Proofs.Change.Unbatched
import WikiMount.Proofs.Node.Placement

/-!
# What requests for a change come to

A request that is to change something is refused, or there is a plan for it that is carried out on the
workspace as it stands. The lemmas say so for each request, with what was found at its paths.
-/

namespace WikiMount

/-- The directory answers for changes of a node that was found at a path. -/
structure Tree.AnswersFor (t : Tree) (dir id : Nat) : Prop where
  found : ∃ (ctx : Context) (path : String), ctx.lookup path = .ok (id, t)
  resolved : t.Resolved
  directory : ∃ parent, (t.node id).parent = some parent ∧ t.directory parent id = .ok dir

namespace Tree

variable {t : Tree} {parent dir id : Nat}

/-- A node that is not a letter group answers for what is below it. -/
theorem directory_of_not_group (hgroup : (t.kind parent).isLetterGroup = false)
    (h : t.directory parent id = .ok dir) : dir = parent := by
  simp only [directory] at h
  split at h
  · exact (Except.ok.inj h).symm
  · rw [hgroup, if_neg Bool.false_ne_true] at h
    exact (Except.ok.inj h).symm

theorem AnswersFor.eq_parent (ht : t.AnswersFor dir id) (hp : (t.node id).parent = some parent)
    (hgroup : (t.kind parent).isLetterGroup = false) : dir = parent := by
  obtain ⟨p, hparent, hdir⟩ := ht.directory
  obtain rfl := Option.some.inj (hp.symm.trans hparent)
  exact directory_of_not_group hgroup hdir

/-- The page that holds a file answers for changes of it. -/
theorem AnswersFor.page_of_held (ht : t.AnswersFor dir id) {page : Page}
    (hk : (t.kind id).holder? = some page) : t.kind dir = .page page := by
  obtain ⟨parent, hp, hpage⟩ := ht.resolved.parent_of_held hk
  obtain rfl := ht.eq_parent hp (by rw [hpage]; rfl)
  exact hpage

/-- The space of a letter group answers for changes of it. -/
theorem AnswersFor.space_of_group (ht : t.AnswersFor dir id) {space : Space} {group : LetterGroup}
    (hk : t.kind id = .pageGroup space group) : t.kind dir = .space space .pages := by
  obtain ⟨parent, hp, hspace⟩ := ht.resolved.parent_of_pageGroup hk
  obtain rfl := ht.eq_parent hp (by rw [hspace]; rfl)
  exact hspace

end Tree

namespace Context

variable {ctx : Context} {t : Tree}

theorem carryOut_result (plan : Plan) (touched : List Nat) :
    (ctx.carryOut t (.ok plan) touched).result = plan.execute ctx.toWorkspace := by
  unfold carryOut Outcome.result
  rcases hx : plan.execute ctx.toWorkspace with ⟨answer, w⟩
  cases answer <;> simp [hx]

theorem requireParent_eq_ok {id parent : Nat} (h : requireParent t id = .ok parent) :
    (t.node id).parent = some parent := by
  simp only [requireParent] at h
  split at h
  next hp => rw [hp, Except.ok.inj h]
  · cases h

theorem answersFor_of_lookup {path : String} {id parent dir : Nat}
    (hl : ctx.lookup path = .ok (id, t)) (hp : requireParent t id = .ok parent)
    (hdir : t.directory parent id = .ok dir) : t.AnswersFor dir id :=
  ⟨⟨ctx, path, hl⟩, (lookup_resolved hl).1, parent, requireParent_eq_ok hp, hdir⟩

/-- A request is refused, and not on account of a batch, or it carries out a plan of some sort. -/
def Carries (ctx : Context) (sort : Plan → Prop) (outcome : Except ViewError Unit × Workspace) :
    Prop :=
  (∃ e, e.Unbatched ∧ outcome = ctx.refuse e) ∨
    ∃ plan, sort plan ∧ outcome = plan.execute ctx.toWorkspace

/-- A request that succeeds has not been refused. -/
theorem Carries.eq_ok {sort : Plan → Prop} {outcome : Except ViewError Unit × Workspace}
    (h : ctx.Carries sort outcome) (hok : outcome.1 = .ok ()) :
    ∃ plan, sort plan ∧ outcome = plan.execute ctx.toWorkspace := by
  obtain ⟨e, _, rfl⟩ | hcarried := h
  · cases hok
  · exact hcarried

theorem carries_carryOut {sort : Plan → Prop} {plan : Except ViewError Plan} (touched : List Nat)
    (h : Unbatched plan) (hsort : ∀ made, plan = .ok made → sort made) :
    ctx.Carries sort (ctx.carryOut t plan touched).result := by
  cases plan with
  | error e => exact .inl ⟨e, h e rfl, rfl⟩
  | ok made => exact .inr ⟨made, hsort made rfl, carryOut_result made touched⟩

/-- Adding a node that was found at a path. -/
theorem add_carries {path : String} {id : Nat} {content : Option Bytes}
    (hl : ctx.lookup path = .ok (id, t)) :
    ctx.Carries (fun plan => ∃ t dir id, t.AnswersFor dir id ∧ ctx.Adds t dir id content plan)
      (match requireParent t id with
        | .error e => ctx.refuse e
        | .ok parent => (ctx.add t parent id content).result) := by
  split
  next e he => exact .inl ⟨e, unbatched_requireParent t id e he, rfl⟩
  next parent hp =>
    refine carries_carryOut [id] (ctx.unbatched_planAdd t parent id content) fun plan hplan => ?_
    obtain ⟨dir, hdir, hadds⟩ := planAdd_eq_ok hplan
    exact ⟨t, dir, id, answersFor_of_lookup hl hp hdir, hadds⟩

/-- Adding a node that was found at a path carries out a plan where it succeeds. -/
theorem add_eq_ok {path : String} {id : Nat} {content : Option Bytes}
    {outcome : Except ViewError Unit × Workspace} (hl : ctx.lookup path = .ok (id, t))
    (hadd : outcome = match requireParent t id with
      | .error e => ctx.refuse e
      | .ok parent => (ctx.add t parent id content).result)
    (hok : outcome.1 = .ok ()) :
    ∃ dir plan, t.AnswersFor dir id ∧ ctx.Adds t dir id content plan ∧
      outcome = plan.execute ctx.toWorkspace := by
  subst hadd
  split at hok
  · cases hok
  next parent hp =>
    cases hplan : ctx.planAdd t parent id content with
    | error e =>
      rw [add, hplan] at hok
      cases hok
    | ok plan =>
      obtain ⟨dir, hdir, hadds⟩ := planAdd_eq_ok hplan
      refine ⟨dir, plan, answersFor_of_lookup hl hp hdir, hadds, ?_⟩
      rw [add, hplan, carryOut_result]

theorem makeCollection_carries (ctx : Context) (path : String) :
    ctx.Carries (fun plan => ∃ t dir id, t.AnswersFor dir id ∧ ctx.Adds t dir id none plan)
      (ctx.makeCollection path) := by
  simp only [makeCollection]
  split
  next e he => exact .inl ⟨e, ctx.unbatched_lookup path e he, rfl⟩
  next id t hl =>
    split
    · exact .inl ⟨_, by simp, rfl⟩
    · exact add_carries hl

theorem put_carries (ctx : Context) (path : String) (data : Bytes) :
    ctx.Carries (fun plan => ∃ t dir id, t.AnswersFor dir id ∧ ctx.Adds t dir id (some data) plan)
      (ctx.put path data) := by
  simp only [put]
  split
  next e he => exact .inl ⟨e, ctx.unbatched_lookup path e he, rfl⟩
  next id t hl =>
    split
    · exact .inl ⟨_, by simp, rfl⟩
    · exact add_carries hl

theorem delete_carries (ctx : Context) (path : String) :
    ctx.Carries (fun plan => ∃ t dir id, ctx.lookup path = .ok (id, t) ∧
      (t.kind id).capabilities.canRemove = true ∧ t.AnswersFor dir id ∧ ctx.Removes t dir id plan)
      (ctx.delete path) := by
  simp only [delete]
  split
  next e he => exact .inl ⟨e, ctx.unbatched_lookup path e he, rfl⟩
  next id t hl =>
    split
    · exact .inl ⟨_, by simp, rfl⟩
    next hremovable =>
      split
      next e he => exact .inl ⟨e, unbatched_requireParent t id e he, rfl⟩
      next parent hp =>
        refine carries_carryOut [id] (ctx.unbatched_planRemove t parent id) fun plan hplan => ?_
        obtain ⟨dir, hdir, hremoves⟩ := planRemove_eq_ok hplan
        exact ⟨t, dir, id, hl, by simpa using hremovable, answersFor_of_lookup hl hp hdir, hremoves⟩

theorem rename_carries (ctx : Context) (path other : String) :
    ctx.Carries (fun plan => ∃ t source destination,
      ctx.lookupTwo path other = .ok (source, destination, t) ∧ ctx.Moves t source destination plan)
      (ctx.rename path other) := by
  simp only [rename]
  split
  next e he => exact .inl ⟨e, ctx.unbatched_lookupTwo path other e he, rfl⟩
  next source destination t hl =>
    refine carries_carryOut [source, destination] (ctx.unbatched_planMove t source destination)
      fun plan hplan => ?_
    exact ⟨t, source, destination, hl, moves_of_planMove hplan⟩

theorem makeCollection_cases (ctx : Context) (path : String) :
    (∃ e, ctx.makeCollection path = ctx.refuse e) ∨
      ∃ t dir id plan, t.AnswersFor dir id ∧ ctx.Adds t dir id none plan ∧
        ctx.makeCollection path = plan.execute ctx.toWorkspace := by
  obtain ⟨e, _, he⟩ | ⟨plan, ⟨t, dir, id, ht, hadds⟩, heq⟩ := ctx.makeCollection_carries path
  · exact .inl ⟨e, he⟩
  · exact .inr ⟨t, dir, id, plan, ht, hadds, heq⟩

theorem put_cases (ctx : Context) (path : String) (data : Bytes) :
    (∃ e, ctx.put path data = ctx.refuse e) ∨
      ∃ t dir id plan, t.AnswersFor dir id ∧ ctx.Adds t dir id (some data) plan ∧
        ctx.put path data = plan.execute ctx.toWorkspace := by
  obtain ⟨e, _, he⟩ | ⟨plan, ⟨t, dir, id, ht, hadds⟩, heq⟩ := ctx.put_carries path data
  · exact .inl ⟨e, he⟩
  · exact .inr ⟨t, dir, id, plan, ht, hadds, heq⟩

theorem delete_cases (ctx : Context) (path : String) :
    (∃ e, ctx.delete path = ctx.refuse e) ∨
      ∃ t dir id plan, t.AnswersFor dir id ∧ ctx.Removes t dir id plan ∧
        ctx.delete path = plan.execute ctx.toWorkspace := by
  obtain ⟨e, _, he⟩ | ⟨plan, ⟨t, dir, id, _, _, ht, hremoves⟩, heq⟩ := ctx.delete_carries path
  · exact .inl ⟨e, he⟩
  · exact .inr ⟨t, dir, id, plan, ht, hremoves, heq⟩

/-! ## What resolving depends on -/

variable {ctx' : Context} {path other : String}

theorem resolve_congr (hr : ctx'.repository = ctx.repository) (hi : ctx'.intent = ctx.intent)
    (t : Tree) (id : Nat) (tokens : List String) :
    ctx'.resolve t id tokens = ctx.resolve t id tokens := by
  have hstep : ∀ t id token last, ctx'.step t id token last = ctx.step t id token last := by
    obtain ⟨⟨r, scratch⟩, caller, config, intent⟩ := ctx
    obtain ⟨⟨r', scratch'⟩, caller', config', intent'⟩ := ctx'
    simp only at hr hi
    subst hr hi
    intros
    rfl
  induction tokens generalizing t id with
  | nil => rfl
  | cons token rest ih => simp only [resolve, hstep, ih]

/-- What is found at a path depends on the repository and the intent alone. -/
theorem lookup_congr (hr : ctx'.repository = ctx.repository) (hi : ctx'.intent = ctx.intent) :
    ctx'.lookup path = ctx.lookup path := by
  simp only [lookup, resolvePath, resolve_congr hr hi]

theorem lookupTwo_congr (hr : ctx'.repository = ctx.repository) (hi : ctx'.intent = ctx.intent) :
    ctx'.lookupTwo path other = ctx.lookupTwo path other := by
  simp only [lookupTwo, lookup_congr hr hi, resolvePath, resolve_congr hr hi]

end Context

namespace Service

variable {α : Type}

/-- The context that a request of a caller runs in. -/
def context (s : Service) (caller : Caller) (intent : Intent) : Context :=
  let (id, sessions) := s.sessions.getOrCreate caller.principal.name
  ⟨⟨s.repository, some (sessions.storage id)⟩, caller, s.config, intent⟩

theorem run_answer (s : Service) (caller : Caller) (intent : Intent)
    (f : Context → Except ViewError α × Workspace) :
    (s.run caller intent f).1 = (f (s.context caller intent)).1 := rfl

theorem run_repository (s : Service) (caller : Caller) (intent : Intent)
    (f : Context → Except ViewError α × Workspace) :
    (s.run caller intent f).2.repository = (f (s.context caller intent)).2.repository := rfl

theorem run_sessions (s : Service) (caller : Caller) (intent : Intent)
    (f : Context → Except ViewError α × Workspace) :
    (s.run caller intent f).2.sessions =
      (s.sessions.getOrCreate caller.principal.name).2.setStorage
        (s.sessions.getOrCreate caller.principal.name).1
        ((f (s.context caller intent)).2.scratch.getD .empty) := rfl

/-- A change that is answered as done has been made. -/
theorem respond_done {result : Except ViewError Unit × Service}
    (h : (respond (fun _ => .done) result).1 = .ok .done) : result.1 = .ok () := by
  obtain ⟨_, hdone, _⟩ := Except.map_eq_ok.1 h
  exact hdone

/-! What reading requests answer with is known from the context that they run in. -/

theorem handle_list (s : Service) (caller : Caller) (path : String) :
    (s.handle caller (.list path)).1 = ((s.context caller .read).list path).map .entries := rfl

theorem handle_stat (s : Service) (caller : Caller) (path : String) :
    (s.handle caller (.stat path)).1 = ((s.context caller .read).stat path).map .stat := rfl

theorem handle_read (s : Service) (caller : Caller) (path : String) :
    (s.handle caller (.read path)).1 = ((s.context caller .read).read path).map .content := rfl

/-- The kinds of the two nodes that a rename is about, where both are found. -/
def renamed? (s : Service) (caller : Caller) : Request → Option (NodeKind × NodeKind)
  | .rename path other =>
    match (s.context caller (.move .unknown)).moveSourceAt path with
    | .error _ => none
    | .ok moving =>
      match (s.context caller (.move moving)).lookupTwo path other with
      | .error _ => none
      | .ok (source, destination, t) => some (t.kind source, t.kind destination)
  | _ => none

/-- A rename that has found out what it moves goes on in a context that knows it. -/
theorem rename_runs (s : Service) (caller : Caller) (path other : String) :
    (∃ e, (s.context caller (.move .unknown)).moveSourceAt path = .error e ∧
        (s.rename caller path other).1 = .error e ∧
        (s.rename caller path other).2.repository = s.repository) ∨
      ∃ (moving : MoveSource) (ctx : Context),
        (s.context caller (.move .unknown)).moveSourceAt path = .ok moving ∧
        ctx.repository = s.repository ∧ ctx.caller = caller ∧ ctx.intent = .move moving ∧
        (s.rename caller path other).1 = (ctx.rename path other).1 ∧
        (s.rename caller path other).2.repository = (ctx.rename path other).2.repository := by
  have hanswer := s.run_answer caller (.move .unknown) (reading fun ctx => ctx.moveSourceAt path)
  have hkept := s.run_repository caller (.move .unknown) (reading fun ctx => ctx.moveSourceAt path)
  simp only [rename]
  rcases hrun : s.run caller (.move .unknown) (reading fun ctx => ctx.moveSourceAt path) with
    ⟨answer, s₁⟩
  rw [hrun] at hanswer hkept
  change s₁.repository = s.repository at hkept
  cases answer with
  | error e => exact .inl ⟨e, hanswer.symm, rfl, hkept⟩
  | ok moving =>
    exact .inr ⟨moving, s₁.context caller (.move moving), hanswer.symm, hkept, rfl, rfl, rfl, rfl⟩

/-- The nodes of a rename are those that it finds in its own context. -/
theorem renamed?_eq_some_iff {s : Service} {caller : Caller} {path other : String}
    {moving : MoveSource} (ctx : Context) {k k' : NodeKind}
    (hmoving : (s.context caller (.move .unknown)).moveSourceAt path = .ok moving)
    (hrepo : ctx.repository = s.repository) (hintent : ctx.intent = .move moving) :
    s.renamed? caller (.rename path other) = some (k, k') ↔
      ∃ source destination t, ctx.lookupTwo path other = .ok (source, destination, t) ∧
        t.kind source = k ∧ t.kind destination = k' := by
  have hsame : (s.context caller (.move moving)).lookupTwo path other = ctx.lookupTwo path other :=
    Context.lookupTwo_congr hrepo.symm hintent.symm
  simp only [renamed?, hmoving, hsame]
  cases ctx.lookupTwo path other with
  | error e => simp
  | ok found =>
    obtain ⟨source, destination, t⟩ := found
    simp only [Option.some.injEq, Prod.mk.injEq, Except.ok.injEq]
    constructor
    · rintro ⟨hsource, hdestination⟩
      exact ⟨source, destination, t, ⟨rfl, rfl, rfl⟩, hsource, hdestination⟩
    · rintro ⟨_, _, _, ⟨rfl, rfl, rfl⟩, hsource, hdestination⟩
      exact ⟨hsource, hdestination⟩

/-- A rename fails, not on account of a batch, and leaves the repository alone, or carries out a plan
for the two nodes it is about. -/
theorem rename_carries (s : Service) (caller : Caller) (path other : String) :
    ((∃ e, e.Unbatched ∧ (s.rename caller path other).1 = .error e) ∧
        (s.rename caller path other).2.repository = s.repository) ∨
      ∃ (ctx : Context) (t : Tree) (source destination : Nat) (plan : Plan),
        ctx.repository = s.repository ∧ ctx.caller = caller ∧
        s.renamed? caller (.rename path other) = some (t.kind source, t.kind destination) ∧
        t.Resolved ∧ ctx.Moves t source destination plan ∧
        (s.rename caller path other).1 = (plan.execute ctx.toWorkspace).1 ∧
        (s.rename caller path other).2.repository =
          (plan.execute ctx.toWorkspace).2.repository := by
  obtain ⟨e, he, hanswer, hkept⟩ | ⟨moving, ctx, hmoving, hrepo, hcaller, hintent, hanswer, hafter⟩ :=
    s.rename_runs caller path other
  · have hlook : Unbatched ((s.context caller (.move .unknown)).moveSourceAt path) :=
      unbatched_map.2 (Context.unbatched_lookup _ path)
    exact .inl ⟨⟨e, hlook e he, hanswer⟩, hkept⟩
  · rw [hanswer, hafter]
    obtain ⟨e, hunbatched, hrefused⟩ | ⟨plan, ⟨t, source, destination, hl, hmoves⟩, heq⟩ :=
      ctx.rename_carries path other
    · rw [hrefused]
      exact .inl ⟨⟨e, hunbatched, rfl⟩, hrepo⟩
    · have hkinds := (renamed?_eq_some_iff ctx hmoving hrepo hintent).2
        ⟨source, destination, t, hl, rfl, rfl⟩
      exact .inr ⟨ctx, t, source, destination, plan, hrepo, hcaller, hkinds,
        (Context.lookupTwo_resolved hl).1, hmoves, congrArg Prod.fst heq,
        congrArg (fun result => result.2.repository) heq⟩

theorem rename_cases (s : Service) (caller : Caller) (path other : String) :
    ((∃ e, (s.rename caller path other).1 = .error e) ∧
        (s.rename caller path other).2.repository = s.repository) ∨
      ∃ (ctx : Context) (t : Tree) (source destination : Nat) (plan : Plan),
        ctx.repository = s.repository ∧ ctx.caller = caller ∧
        s.renamed? caller (.rename path other) = some (t.kind source, t.kind destination) ∧
        ctx.Moves t source destination plan ∧
        (s.rename caller path other).1 = (plan.execute ctx.toWorkspace).1 ∧
        (s.rename caller path other).2.repository =
          (plan.execute ctx.toWorkspace).2.repository := by
  obtain ⟨⟨e, _, he⟩, hkept⟩ | ⟨ctx, t, source, destination, plan, hrepo, hcaller, hkinds, _, hplan⟩ :=
    s.rename_carries caller path other
  · exact .inl ⟨⟨e, he⟩, hkept⟩
  · exact .inr ⟨ctx, t, source, destination, plan, hrepo, hcaller, hkinds, hplan⟩

/-- A rename that succeeds has carried out a plan for the two nodes it is about. -/
theorem renamed_plan {s : Service} {caller : Caller} {request : Request} {k k' : NodeKind}
    (hk : s.renamed? caller request = some (k, k'))
    (hok : (s.handle caller request).1 = .ok .done) :
    ∃ (ctx : Context) (t : Tree) (source destination : Nat) (plan : Plan),
      ctx.repository = s.repository ∧ ctx.caller = caller ∧ t.kind source = k ∧
      t.kind destination = k' ∧ ctx.Moves t source destination plan ∧
      (plan.execute ctx.toWorkspace).1 = .ok () ∧
      (s.handle caller request).2.repository = (plan.execute ctx.toWorkspace).2.repository := by
  cases request with
  | rename path other =>
    simp only [handle, respond] at hok ⊢
    have hdone := respond_done hok
    obtain ⟨⟨e, herror⟩, _⟩ | ⟨ctx, t, source, destination, plan, hrepo, hcaller, hkinds, hmoves,
        hanswer, hafter⟩ := s.rename_cases caller path other
    · rw [herror] at hdone
      cases hdone
    · obtain ⟨hsource, hdestination⟩ := Prod.mk.inj (Option.some.inj (hkinds.symm.trans hk))
      exact ⟨ctx, t, source, destination, plan, hrepo, hcaller, hsource, hdestination, hmoves,
        hanswer.symm.trans hdone, hafter⟩
  | _ => cases hk

end Service

end WikiMount
