import WikiMount.Proofs.Change.Requests
import WikiMount.Proofs.Change.Runs
import WikiMount.Proofs.Storage.Permit

/-!
# No page is touched without a right on it

What a policy grants on pages makes a permit: the right to edit a page lets the caller create and
change it, the right to delete it lets the caller remove it, and in a rename of pages the source takes
only the right to edit and the destination only the right to delete. Every plan but the one for a
space that is renamed is covered by the permit, and carrying out a covered plan respects the permit
also where it stops half-way.
-/

namespace WikiMount

/-- What a policy lets a caller do with pages in a request that renames one kind of node to another.
-/
def Policy.permit (policy : Policy) (renamed : Option (NodeKind × NodeKind)) : Permit where
  create p := policy.grants .edit (.page p) = true
  remove p := policy.grants .delete (.page p) = true ∨
    (∃ q, renamed = some (.page p, .page q)) ∧ policy.grants .edit (.page p) = true
  change p := policy.grants .edit (.page p) = true ∨
    (∃ q, renamed = some (.page q, .page p)) ∧ policy.grants .delete (.page p) = true
  change_of_create _ h := .inl h

/-! ## Plans -/

namespace Plan

/-- The permit covers what carrying the plan out writes. -/
def Covered (P : Permit) (s : Store) : Plan → Prop
  | .write w => P.Covers s w
  | .saveText _ d _ => P.Covers s (.save d)
  | .batch _ items => ∀ item ∈ items, ∃ p, item = .write (.delete p) ∧ P.remove p
  | .renamePage source destination children =>
    P.Covers s (.rename source destination) ∧ ∀ c ∈ children, c = destination ∨ P.create c
  | _ => True

end Plan

namespace Repository

variable {r : Repository} {P : Permit}

theorem respected_write {w : Write} (hc : P.Covers r.store w) (p : Page) :
    P.Respected r.store (r.write w).2.store p :=
  write_invariant (P.Respected r.store · p) (.refl P r.store p) (Permit.respected_write hc p)

theorem respected_deletes {batch : Batch} {items : List BatchItem}
    (hc : ∀ item ∈ items, ∃ p, item = .write (.delete p) ∧ P.remove p) (p : Page) :
    P.Respected r.store (r.applyBatch batch items).2.store p := by
  refine applyFrom_invariant (P.Respected r.store · p) (fun item hi r' h => ?_) (.refl P r.store p)
  obtain ⟨q, rfl, hq⟩ := hc item hi
  exact h.trans (respected_write (w := .delete q) hq p)

/-- Re-parenting keeps documents where they are filed. -/
theorem hasPage_reparent {child parent p : Page} (hp : r.store.hasPage p = true) :
    (r.apply (.reparent child parent)).2.store.hasPage p = true := by
  simp only [apply]
  split
  · exact hp
  next d hd =>
    apply write_invariant (Store.hasPage · p = true) hp
    apply Store.settle_invariant (Store.hasPage · p = true) hp
    intro s' hs
    rw [Store.hasPage_eq] at hp
    rw [Store.hasPage_eq, Store.document?_save hs]
    split
    · rfl
    · exact hp

theorem respected_reparent (hs : r.store.Coherent) {child parent : Page}
    (hc : P.create child ∨ r.store.hasPage child = true ∧ P.change child) (p : Page) :
    P.Respected r.store (r.apply (.reparent child parent)).2.store p := by
  simp only [apply]
  split
  · exact .refl P r.store p
  next d hd =>
    have href : d.reference = child := reference_eq hs hd
    exact respected_write (w := .save { d with parent := some parent }) (href ▸ hc) p

/-- The destination is stored once the page has been renamed, so the permit to change it is enough. -/
theorem respected_renamePage (hs : r.store.Coherent) {source destination : Page}
    {children : List Page} (hc : P.Covers r.store (.rename source destination))
    (hchildren : ∀ c ∈ children, c = destination ∨ P.create c) (p : Page) :
    P.Respected r.store (r.renamePage source destination children).2.store p := by
  have hchange : P.change destination := by
    cases hd : r.store.hasPage destination with
    | true => exact hc.2.1 hd
    | false => exact P.change_of_create _ (hc.2.2 hd)
  simp only [renamePage, perform]
  cases hw : r.write (.rename source destination) with
  | mk answer r' =>
    have hrespected : P.Respected r.store r'.store p := by
      have h := respected_write (r := r) hc p
      rwa [hw] at h
    cases answer with
    | error e => exact hrespected
    | ok _ =>
      have hcoherent : r'.store.Coherent := by
        have h := coherent_write hs (.rename source destination)
        rwa [hw] at h
      have hstored : r'.store.hasPage destination = true :=
        Store.hasPage_rename (Store.settle_eq_ok (write_eq_ok hw))
      -- Re-parenting keeps the store coherent and the destination stored.
      refine (applyFrom_invariant
        (fun s => s.Coherent ∧ s.hasPage destination = true ∧ P.Respected r.store s p)
        (fun item hi r'' h => ?_) ⟨hcoherent, hstored, hrespected⟩).2.2
      obtain ⟨hs', hd, hp⟩ := h
      obtain ⟨child, hchild, rfl⟩ := List.mem_map.1 hi
      refine ⟨coherent_apply hs' _, hasPage_reparent hd, hp.trans (respected_reparent hs' ?_ p)⟩
      rcases hchildren child hchild with rfl | hcreate
      · exact .inr ⟨hd, hchange⟩
      · exact .inl hcreate

end Repository

theorem Plan.execute_respected {P : Permit} {plan : Plan} {w : Workspace}
    (hs : w.repository.store.Coherent) (hc : plan.Covered P w.repository.store) (p : Page) :
    P.Respected w.repository.store (plan.execute w).2.repository.store p := by
  cases plan with
  | nothing => exact .refl P _ p
  | writeScratch path data => exact .refl P _ p
  | removeScratch path => exact .refl P _ p
  | write change => exact Repository.respected_write hc p
  | saveText node document text =>
    exact Repository.respected_write (w := .save { document with content := text }) hc p
  | batch task items => exact Repository.respected_deletes hc p
  | renamePage source destination children =>
    exact Repository.respected_renamePage hs hc.1 hc.2 p

/-! ## What planning has checked -/

namespace Context

variable {ctx : Context} {t : Tree} {dir child : Nat} {plan : Plan}
  {renamed : Option (NodeKind × NodeKind)}

theorem reference_of_placeholder (hs : ctx.repository.store.Coherent) {page : Page} {d : Document}
    (h : ctx.placeholder page = .ok d) : d.reference = page := by
  simp only [placeholder] at h
  split at h
  · cases h
  next found hd =>
    have href : found.reference = page := Repository.reference_eq hs hd
    obtain rfl := Except.ok.inj h
    exact href

theorem reference_of_document (hs : ctx.repository.store.Coherent) (ht : t.Resolved) {page : Page}
    {d : Document} (hk : t.kind dir = .page page) (h : t.document ctx.repository dir = .ok d) :
    d.reference = page := by
  rw [ht.document_eq (by rw [hk]; rfl)] at h
  exact Repository.reference_eq hs (viewed_eq_ok.1 h)

theorem Adds.covered {content : Option Bytes} (hs : ctx.repository.store.Coherent)
    (ht : t.AnswersFor dir child) (h : ctx.Adds t dir child content plan) :
    plan.Covered (ctx.caller.policy.permit renamed) ctx.repository.store := by
  cases h with
  | scratch _ => trivial
  | below hdir hchild hedit hnew hd =>
    left
    rwa [← reference_of_placeholder hs hd] at hnew
  | text hdir hchild hedit hdata htext hd =>
    left
    rwa [← reference_of_document hs ht.resolved hdir hd] at hedit
  | attach hdir hchild hedit hdata =>
    rw [ht.page_of_held (by rw [hchild]; rfl)] at hdir
    obtain rfl := NodeKind.page.inj hdir
    exact hedit
  | inSpace hdir hchild hedit hd =>
    left
    rwa [← reference_of_placeholder hs hd] at hedit
  | home hdir hchild hedit hd =>
    left
    rwa [← reference_of_placeholder hs hd] at hedit

theorem covered_deletes {batch : Batch} {pages : List Page}
    (h : ∀ p ∈ pages, ctx.holds .delete (.page p) = true) :
    (Plan.batch batch (pages.map fun p => .write (.delete p))).Covered
      (ctx.caller.policy.permit renamed) ctx.repository.store := by
  intro item hi
  obtain ⟨p, hp, rfl⟩ := List.mem_map.1 hi
  exact ⟨p, rfl, .inl (h p hp)⟩

theorem Removes.covered (ht : t.AnswersFor dir child) (h : ctx.Removes t dir child plan) :
    plan.Covered (ctx.caller.policy.permit renamed) ctx.repository.store := by
  cases h with
  | scratch => trivial
  | wikiFile => trivial
  | attachment hdir hchild hedit =>
    rw [ht.page_of_held (by rw [hchild]; rfl)] at hdir
    obtain rfl := NodeKind.page.inj hdir
    exact .inl hedit
  | below _ _ _ hdelete =>
    split
    · exact .inl hdelete
    · trivial
  | inSpace _ _ hdelete =>
    split
    · exact .inl hdelete
    · trivial
  | group _ _ _ hdelete => exact covered_deletes hdelete
  | space _ _ _ hdelete => exact covered_deletes hdelete

theorem Moves.covered {source destination : Nat}
    (hspace : ∀ F T, (t.kind source, t.kind destination) ≠ (.space F .pages, .space T .pages))
    (h : ctx.Moves t source destination plan) :
    plan.Covered (ctx.caller.policy.permit (some (t.kind source, t.kind destination)))
      ctx.repository.store := by
  cases h with
  | @page page other _ _ hsource hdestination _ hedit _ _ _ hover _ hall =>
    obtain ⟨hdelete, hcreate⟩ := grants_of_overwrite hover
    rw [hsource, hdestination]
    refine ⟨⟨.inr ⟨⟨other, rfl⟩, hedit⟩, fun hp => ?_, hcreate⟩, fun c hc => ?_⟩
    · exact .inr ⟨⟨page, rfl⟩, hdelete hp⟩
    · rcases List.mem_append.1 hc with hc | hc
      · exact .inr (hall c hc)
      · split at hc
        · exact .inl (List.mem_singleton.1 hc)
        · cases hc
  | @space F T _ hsource hdestination =>
    rw [hsource, hdestination] at hspace
    exact absurd rfl (hspace F T)
  | attachment _ _ _ hedit hother => exact ⟨.inl hedit, hother⟩

end Context

/-! ## Requests -/

namespace Service

variable {s : Service} {caller : Caller} {intent : Intent}

theorem run_respected {f : Context → Except ViewError Unit × Workspace} {P : Permit} {p : Page}
    (hs : s.repository.store.Coherent)
    (hf : (∃ e, f (s.context caller intent) = (s.context caller intent).refuse e) ∨
      ∃ plan : Plan, plan.Covered P s.repository.store ∧
        f (s.context caller intent) = plan.execute (s.context caller intent).toWorkspace) :
    P.Respected s.repository.store (s.run caller intent f).2.repository.store p := by
  rw [run_repository]
  obtain ⟨e, he⟩ | ⟨plan, hc, he⟩ := hf
  · rw [he]
    exact .refl P s.repository.store p
  · rw [he]
    exact Plan.execute_respected (w := (s.context caller intent).toWorkspace) hs hc p

/-- Whatever a request answers, it has created, removed and changed only pages that the policy grants
the caller a right on, unless it renames a space. -/
theorem handle_respected {s : Service} {caller : Caller} {request : Request}
    (hs : s.repository.store.Reachable)
    (hspace : ∀ F T, s.renamed? caller request ≠ some (.space F .pages, .space T .pages)) (p : Page) :
    (caller.policy.permit (s.renamed? caller request)).Respected s.repository.store
      (s.handle caller request).2.repository.store p := by
  cases request with
  | list path => exact .refl _ _ p
  | stat path => exact .refl _ _ p
  | read path => exact .refl _ _ p
  | makeCollection path =>
    simp only [handle, respond]
    refine run_respected hs.coherent ?_
    obtain hrefused | ⟨t, dir, id, plan, ht, hadds, heq⟩ :=
      (s.context caller .createCollection).makeCollection_cases path
    · exact .inl hrefused
    · exact .inr ⟨plan, hadds.covered hs.coherent ht, heq⟩
  | put path data =>
    simp only [handle, respond]
    refine run_respected hs.coherent ?_
    obtain hrefused | ⟨t, dir, id, plan, ht, hadds, heq⟩ :=
      (s.context caller .createFile).put_cases path data
    · exact .inl hrefused
    · exact .inr ⟨plan, hadds.covered hs.coherent ht, heq⟩
  | delete path =>
    simp only [handle, respond]
    refine run_respected hs.coherent ?_
    obtain hrefused | ⟨t, dir, id, plan, ht, hremoves, heq⟩ :=
      (s.context caller .delete).delete_cases path
    · exact .inl hrefused
    · exact .inr ⟨plan, hremoves.covered ht, heq⟩
  | rename path other =>
    simp only [handle, respond]
    obtain ⟨_, hkept⟩ | ⟨ctx, t, source, destination, plan, hrepo, rfl, hkinds, hmoves, _, hafter⟩ :=
      s.rename_cases caller path other
    · rw [hkept]
      exact .refl _ _ p
    · rw [hafter, hkinds, ← hrepo]
      rw [← hrepo] at hs
      refine Plan.execute_respected hs.coherent (hmoves.covered fun F T he => ?_) p
      rw [hkinds, he] at hspace
      exact hspace F T rfl

/-- Moving a page over another one takes the right to edit the one and to delete the other. -/
theorem handle_respected_renaming :
    let a := Page.inSpace "A" (.topLevel "Main")
    let b := Page.inSpace "B" (.topLevel "Main")
    let s := Service.new (.ofStore (.ofPages [a, b])) .standard
    let caller : Caller := ⟨.anonymous, "mover", fun right target =>
      right == .edit && target == .page a || right == .delete && target == .page b⟩
    let request := Request.rename "/spaces/Main/A" "/spaces/Main/B"
    s.repository.store.Reachable ∧ s.renamed? caller request = some (.page a, .page b) ∧
      (s.handle caller request).1 = .ok .done ∧
      ∀ p, (caller.policy.permit (s.renamed? caller request)).Respected s.repository.store
        (s.handle caller request).2.repository.store p := by
  refine ⟨Store.reachable_ofPages _, rfl, rfl, fun p =>
    handle_respected (Store.reachable_ofPages _) ?_ p⟩
  intro F T h
  have hpage := congrArg (fun kinds => (kinds.map fun k => k.1.isPage).getD false) h
  exact Bool.false_ne_true hpage.symm

end Service

end WikiMount
