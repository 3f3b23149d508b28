import WikiMount.Proofs.Change.MovedFile
import WikiMount.Proofs.Change.PageRename
import WikiMount.Proofs.Change.SpaceRename

/-!
# The page that its owner cannot rename away

No rename takes the profile page of its caller away, however many of its writes succeed. The page is not
renamed itself, neither alone nor with its space, and no page is renamed to it unless it is the destination
that the caller names. What is left of a rename are the parent of the page, which is given anew when its
old parent is renamed, and the date that comes with it.
-/

namespace WikiMount

namespace Store

/-- The page is stored, and unless it has been replaced its document is `d`, given another parent and
another date of its last update perhaps. -/
def Keeps (p : Page) (d : Document) (replaced : Prop) (s : Store) : Prop :=
  ∃ d', s.documents.get? p = some d' ∧
    (¬replaced → d' = { d with parent := d'.parent, updatedAt := d'.updatedAt })

namespace Keeps

variable {s s' : Store} {p F T : Page} {d e : Document} {replaced : Prop} {a b : Attachment}

theorem of_stored (h : s.documents.get? p = some d) (replaced : Prop) : Keeps p d replaced s :=
  ⟨d, h, fun _ => rfl⟩

theorem hasPage (h : Keeps p d replaced s) : s.hasPage p = true := by
  obtain ⟨d', hd', _⟩ := h
  rw [hasPage_eq, hd']
  rfl

theorem congr (h : Keeps p d replaced s) (hsame : s'.documents.get? p = s.documents.get? p) :
    Keeps p d replaced s' := by
  obtain ⟨d', hd', hown⟩ := h
  exact ⟨d', hsame.trans hd', hown⟩

/-- Another page is renamed. -/
theorem rename (h : Keeps p d replaced s) (hF : p ≠ F) (hT : p = T → replaced)
    (hrename : s.rename F T = .ok s') : Keeps p d replaced s' := by
  by_cases hp : p = T
  · obtain ⟨d', hd'⟩ := Option.isSome_iff_exists.1 (hasPage_rename hrename)
    exact ⟨d', hp ▸ hd', fun hnot => absurd (hT hp) hnot⟩
  · exact h.congr (by rw [document?_rename hrename, if_neg hp, if_neg hF])

/-- A page, and that may be this one, is given another parent. -/
theorem reparent (h : Keeps p d replaced s) (hs : s.Reachable) {child : Page}
    (he : s.document child = .ok e) (hsave : s.save { e with parent := some T } = .ok s') :
    Keeps p d replaced s' := by
  have href : e.reference = child := hs.coherent.reference_eq he
  by_cases hp : p = child
  · subst hp
    have hfiled := (document_eq_ok_iff hs.coherent h.hasPage).1 he
    obtain ⟨d', hd', hown⟩ := h
    obtain ⟨f, n, hf, hf'⟩ := (reparented_save hs hfiled hsave).moved p (.head _)
    obtain rfl : d' = f := Option.some.inj (hd'.symm.trans hf)
    refine ⟨_, hf', fun hnot => ?_⟩
    rw [hown hnot]
  · exact h.congr (by rw [document?_save hsave, if_neg (href ▸ hp)])

/-- A file is moved, whether it arrives or not. -/
theorem move (h : Keeps p d replaced s) (a b : Attachment) : Keeps p d replaced (s.move a b).2 := by
  obtain ⟨e, _, he⟩ | ⟨data, _, ⟨s', hattach, he⟩ | ⟨e, _, he⟩⟩ := s.move_cases a b
  · exact he ▸ h
  · have hkept : ¬(p = b.page ∧ (s.takeFile a).hasPage b.page = false) := by
      rintro ⟨rfl, hnew⟩
      exact Bool.false_ne_true (hnew.symm.trans h.hasPage)
    rw [he]
    refine h.congr ?_
    rw [document?_attach hattach, if_neg hkept]
    rfl
  · exact he ▸ h

end Keeps

end Store

namespace Repository

variable {r : Repository} {p F T : Page} {d : Document} {replaced : Prop}

theorem keeps_rename (h : Store.Keeps p d replaced r.store) (hF : p ≠ F) (hT : p = T → replaced) :
    Store.Keeps p d replaced (r.write (.rename F T)).2.store :=
  write_invariant _ h (Store.settle_invariant _ h fun _ hrename => h.rename hF hT hrename)

theorem keeps_reparent (hs : r.store.Reachable) (h : Store.Keeps p d replaced r.store)
    (child : Page) : Store.Keeps p d replaced (r.apply (.reparent child T)).2.store := by
  simp only [apply]
  split
  · exact h
  next e he =>
    exact write_invariant _ h
      (Store.settle_invariant _ h fun _ hsave => h.reparent hs (asked_eq_ok he) hsave)

/-- Pages are given another parent one by one, each read in the store that the last one has left. -/
theorem keeps_reparents {batch : Batch} {pages : List Page} (hs : r.store.Reachable)
    (h : Store.Keeps p d replaced r.store) :
    Store.Keeps p d replaced (r.applyBatch batch (pages.map fun c => .reparent c T)).2.store := by
  refine (applyFrom_invariant (fun s => s.Reachable ∧ Store.Keeps p d replaced s)
    (fun item hitem r hr => ?_) ⟨hs, h⟩).2
  obtain ⟨child, _, rfl⟩ := List.mem_map.1 hitem
  exact ⟨reachable_apply hr.1 _, keeps_reparent hr.1 hr.2 child⟩

theorem keeps_renamePage {pages : List Page} (hs : r.store.Reachable)
    (h : Store.Keeps p d replaced r.store) (hF : p ≠ F) (hT : p = T → replaced) :
    Store.Keeps p d replaced (r.renamePage F T pages).2.store := by
  have hrenamed : Store.Keeps p d replaced (r.perform (.rename F T)).2.store := keeps_rename h hF hT
  have hreach := reachable_perform hs (.rename F T)
  simp only [renamePage]
  split
  next hp =>
    rw [hp] at hrenamed
    exact hrenamed
  next hp =>
    rw [hp] at hrenamed hreach
    exact keeps_reparents hreach hrenamed

/-- Pages other than this one are renamed, and none to this one. -/
theorem keeps_renames {batch : Batch} {pages : List Page} {image : Page → Page}
    (h : Store.Keeps p d replaced r.store) (hF : ∀ q ∈ pages, p ≠ q) (hT : ∀ q ∈ pages, p ≠ image q) :
    Store.Keeps p d replaced
      (r.applyBatch batch (pages.map fun q => .write (.rename q (image q)))).2.store := by
  refine applyFrom_invariant (Store.Keeps p d replaced) (fun item hitem r hr => ?_) h
  obtain ⟨q, hq, rfl⟩ := List.mem_map.1 hitem
  exact keeps_rename hr (hF q hq) fun hp => absurd hp (hT q hq)

end Repository

/-- A move that the owner of a page makes. -/
theorem Context.Moves.keeps {ctx : Context} {t : Tree} {source destination : Nat} {plan : Plan}
    {p : Page} {d : Document} (h : ctx.Moves t source destination plan)
    (hs : ctx.repository.store.Reachable) (howns : ctx.caller.principal.owns p = true)
    (hd : ctx.repository.store.documents.get? p = some d) :
    Store.Keeps p d (t.kind destination = .page p)
      (plan.execute ctx.toWorkspace).2.repository.store := by
  have hkept := Store.Keeps.of_stored hd (t.kind destination = .page p)
  have hforeign : ∀ q, ctx.caller.principal.owns q = false → p ≠ q := by
    rintro q hq rfl
    exact Bool.false_ne_true (hq.symm.trans howns)
  cases h with
  | page _ hdestination _ _ _ _ howner =>
    exact Repository.keeps_renamePage hs hkept (hforeign _ howner) fun hp => hp ▸ hdestination
  | @space _ other _ _ _ _ _ hnew _ _ hcarried =>
    -- The new space is not known, so the page is not in it.
    have hout : p.isIn other ≠ true := fun hin =>
      Bool.false_ne_true ((hs.coherent.hasPage_of_unknown hnew hin).symm.trans hkept.hasPage)
    refine Repository.keeps_renames hkept (fun q hq => hforeign q (hcarried q hq).2) fun q _ hp => ?_
    exact hout (hp ▸ q.isIn_movedTo other)
  | attachment =>
    exact Repository.write_invariant _ hkept (hkept.move _ _)

namespace Service

/-- A rename leaves the profile page of its caller stored, whatever it answers, and leaves it its content,
the date of its creation and its locale unless the page is the destination. -/
theorem handle_profile_page (s : Service) (caller : Caller) (path other : String) {p : Page}
    {d : Document} (hs : s.repository.store.Reachable)
    (hprofile : caller.principal.profile = some p)
    (hd : s.repository.store.documents.get? p = some d) :
    ∃ d', (s.handle caller (.rename path other)).2.repository.store.documents.get? p = some d' ∧
      d'.reference = p ∧
      ((∀ k, s.renamed? caller (.rename path other) ≠ some (k, .page p)) →
        d'.content = d.content ∧ d'.createdAt = d.createdAt ∧ d'.locale = d.locale) := by
  obtain ⟨_, hkept⟩ | ⟨ctx, t, source, destination, plan, hrepo, hcaller, hkinds, hmoves, _, hafter⟩ :=
    s.rename_cases caller path other
  · exact ⟨d, hkept ▸ hd, hs.coherent.filed p d hd, fun _ => ⟨rfl, rfl, rfl⟩⟩
  · rw [← hrepo] at hs hd
    have howns : ctx.caller.principal.owns p = true := by
      rw [hcaller, Principal.owns, hprofile]
      exact beq_self_eq_true _
    have hreach : (plan.execute ctx.toWorkspace).2.repository.store.Reachable :=
      Plan.execute_reachable hs
    obtain ⟨d', hd', hown⟩ := hmoves.keeps hs howns hd
    refine ⟨d', hafter ▸ hd', hreach.coherent.filed p d' hd', fun hnot => ?_⟩
    rw [hown fun hreplaced => hnot _ (hreplaced ▸ hkinds)]
    exact ⟨rfl, rfl, rfl⟩

/-- The profile page is given another parent by a rename that stops at the page after it. -/
theorem handle_profile_page_reparented :
    let page := fun name => Page.inSpace name (.topLevel "Main")
    let child := fun name =>
      Write.save { Document.blank (page name) with parent := some (page "F"), content := name }
    let store := (((Store.ofPages [page "F"]).write (child "U")).2.write (child "Z")).2
    let s := Service.new ⟨store, .onPages [page "Z"], 0, []⟩ .standard
    let caller : Caller := ⟨⟨"u", some (page "U")⟩, .allowAll⟩
    let request := Request.rename "/spaces/Main/F" "/spaces/Main/T"
    let after := (s.handle caller request).2.repository.store
    store.Reachable ∧ (s.handle caller request).1.isOk = false ∧
      after.childrenOf (page "F") = [page "Z"] ∧ after.childrenOf (page "T") = [page "U"] ∧
      ∃ d', after.documents.get? (page "U") = some d' ∧ d'.reference = page "U" ∧
        d'.content = "U" ∧ d'.createdAt = 2 ∧ d'.locale = "" := by
  intro page child store s caller request after
  have hs : store.Reachable := ((Store.reachable_ofPages _).write _).write _
  have hstopped : (s.handle caller request).1.isOk = false ∧
      after.childrenOf (page "F") = [page "Z"] ∧ after.childrenOf (page "T") = [page "U"] := by
    dsimp only [page, child, store, s, caller, request, after]
    decide +kernel
  have hd : store.documents.get? (page "U") = some { Document.blank (page "U") with
      content := "U", parent := some (page "F"), createdAt := 2, updatedAt := 2, isNew := false } := by
    dsimp only [page, child, store]
    rfl
  have hk : s.renamed? caller request = some (.page (page "F"), .page (page "T")) := by
    dsimp only [page, child, store, s, caller, request]
    decide +kernel
  obtain ⟨d', hd', href, hkept⟩ :=
    handle_profile_page s caller "/spaces/Main/F" "/spaces/Main/T" hs rfl hd
  refine ⟨hs, hstopped.1, hstopped.2.1, hstopped.2.2, d', hd', href, hkept fun k hdestination => ?_⟩
  rw [hk] at hdestination
  exact absurd hdestination (by simp [page, Page.inSpace])

end Service

end WikiMount
