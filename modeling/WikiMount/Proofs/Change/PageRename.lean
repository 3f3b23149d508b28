import WikiMount.Proofs.Change.Requests
import WikiMount.Proofs.Change.Runs
import WikiMount.Proofs.Storage.Queries
import WikiMount.Proofs.Storage.Upkeep

/-!
# What renaming a page does to the store

A page that is renamed takes its document and its files along, and then the pages whose parent it was
are given their new parent one by one. The list of these pages is made before the page moves, so it
may name the destination itself. At every point of the run the pages that have been dealt with have
the new parent and nothing else of them has changed.
-/

namespace WikiMount

namespace Store

/-- The pages of a list have been given the parent `T`, and nothing else has changed. -/
structure Reparented (T : Page) (pages : List Page) (s s' : Store) : Prop where
  files : ∀ p, s'.filesOf p = s.filesOf p
  kept : ∀ p, p ∉ pages → s'.documents.get? p = s.documents.get? p
  moved : ∀ p ∈ pages, ∃ d n, s.documents.get? p = some d ∧
    s'.documents.get? p = some { d with parent := some T, updatedAt := n }

/-- The page `F` has become the page `T`. -/
structure PageRenamed (F T : Page) (s s' : Store) : Prop where
  stored : ∀ p, s'.hasPage p = true ↔ p = T ∨ p ≠ F ∧ s.hasPage p = true
  files : s'.filesOf T = s.filesOf F
  other_files : ∀ p, p ≠ F → p ≠ T → s'.filesOf p = s.filesOf p
  /-- Children follow the page. -/
  children : ∀ p d, p ≠ F → p ≠ T → s.documents.get? p = some d → d.parent = some F →
    ∃ n, s'.documents.get? p = some { d with parent := some T, updatedAt := n }
  others : ∀ p d, p ≠ F → p ≠ T → s.documents.get? p = some d → d.parent ≠ some F →
    s'.documents.get? p = some d
  /-- Nothing has the page as its parent any more. -/
  no_stale : ∀ p d, s'.documents.get? p = some d → d.parent ≠ some F

variable {s s' s'' : Store} {F T p : Page} {pages : List Page}

namespace Reparented

theorem refl (T : Page) (s : Store) : Reparented T [] s s where
  files _ := rfl
  kept _ _ := rfl
  moved p hp := by cases hp

theorem hasPage (h : Reparented T pages s s') (p : Page) : s'.hasPage p = s.hasPage p := by
  by_cases hp : p ∈ pages
  · obtain ⟨d, n, hd, hd'⟩ := h.moved p hp
    simp only [hasPage_eq, hd, hd', Option.isSome_some]
  · exact hasPage_congr (h.kept p hp)

theorem cons (h : Reparented T [p] s s') (h' : Reparented T pages s' s'') :
    Reparented T (p :: pages) s s'' where
  files q := (h'.files q).trans (h.files q)
  kept q hq := by
    have hp : q ∉ [p] := fun hm => hq (List.mem_singleton.1 hm ▸ .head _)
    rw [h'.kept q fun hm => hq (.tail p hm), h.kept q hp]
  moved q hq := by
    by_cases hfirst : q ∈ [p]
    · obtain ⟨d, n, hd, hd'⟩ := h.moved q hfirst
      by_cases hagain : q ∈ pages
      -- A page that comes up twice has been given the parent before.
      · obtain ⟨e, m, he, he'⟩ := h'.moved q hagain
        obtain rfl := Option.some.inj (hd'.symm.trans he)
        exact ⟨d, m, hd, he'⟩
      · exact ⟨d, n, hd, (h'.kept q hagain).trans hd'⟩
    · have hrest : q ∈ pages := by
        rcases List.mem_cons.1 hq with rfl | hq
        · exact absurd (.head _) hfirst
        · exact hq
      obtain ⟨d, n, hd, hd'⟩ := h'.moved q hrest
      exact ⟨d, n, (h.kept q hfirst).symm.trans hd, hd'⟩

end Reparented

/-- A page that is stored and saved with another parent has kept all but its date. -/
theorem reparented_save (hs : s.Reachable) {d : Document} (hd : s.documents.get? p = some d)
    (h : s.save { d with parent := some T } = .ok s') : Reparented T [p] s s' := by
  have href : d.reference = p := hs.coherent.filed p d hd
  obtain ⟨hnew, hdate⟩ := hs.upkept.dated p d hd
  have hsaved : Document.savedAt { d with parent := some T } (s.clock + 1) =
      { d with parent := some T, updatedAt := s.clock + 1 } := by
    simp [Document.savedAt, hnew, hdate]
  have hdoc := document?_save h
  constructor
  · exact filesOf_save h
  · intro q hq
    have hne : q ≠ d.reference := fun he => hq (List.mem_singleton.2 (he.trans href))
    rw [hdoc, if_neg hne]
  · intro q hq
    obtain rfl := List.mem_singleton.1 hq
    refine ⟨d, s.clock + 1, hd, ?_⟩
    rw [hdoc, if_pos href.symm, hsaved]

/-- A page is renamed once the children it had, and the page itself if it was its own parent, have
been given their new parent. -/
theorem PageRenamed.of_reparented {now : Store} (hs : s.Coherent) (hne : F ≠ T)
    (hrename : s.rename F T = .ok now) {own : List Page}
    (hown : ∀ p ∈ own, p = T) (hself : F ∈ s.childrenOf F → T ∈ own)
    (h : Reparented T ((s.childrenOf F).filter (· != F) ++ own) now s') : PageRenamed F T s s' := by
  have hdoc := document?_rename hrename
  have hother : ∀ p, p ≠ F → p ≠ T → now.documents.get? p = s.documents.get? p := by
    intro p hF hT
    rw [hdoc, if_neg hT, if_neg hF]
  have hlisted : ∀ p d, p ≠ F → s.documents.get? p = some d → d.parent = some F →
      p ∈ (s.childrenOf F).filter (· != F) ++ own := by
    intro p d hF hd hparent
    refine List.mem_append.2 (.inl (List.mem_filter.2 ⟨(mem_childrenOf hs).2 ⟨d, hd, hparent⟩, ?_⟩))
    simpa using hF
  constructor
  · intro p
    rw [h.hasPage]
    by_cases hT : p = T
    · simp [hT, hasPage_rename hrename]
    · by_cases hF : p = F
      · simp [hF, hne, hasPage_rename_source hrename hne]
      · simp [hT, hF, hasPage_rename_of_ne hrename hF hT]
  · rw [h.files, filesOf_rename hrename hne]
  · intro p hF hT
    rw [h.files, filesOf_rename_of_ne hrename hF hT]
  · intro p d hF hT hd hparent
    obtain ⟨e, n, he, he'⟩ := h.moved p (hlisted p d hF hd hparent)
    rw [hother p hF hT, hd] at he
    obtain rfl := Option.some.inj he
    exact ⟨n, he'⟩
  · intro p d hF hT hd hparent
    have hnot : p ∉ (s.childrenOf F).filter (· != F) ++ own := by
      intro hp
      rcases List.mem_append.1 hp with hp | hp
      · obtain ⟨e, he, hparent'⟩ := (mem_childrenOf hs).1 (List.mem_filter.1 hp).1
        rw [hd] at he
        obtain rfl := Option.some.inj he
        exact hparent hparent'
      · exact hT (hown p hp)
    rw [h.kept p hnot, hother p hF hT, hd]
  · intro p d hd hparent
    by_cases hp : p ∈ (s.childrenOf F).filter (· != F) ++ own
    · obtain ⟨e, n, _, he'⟩ := h.moved p hp
      obtain rfl := Option.some.inj (hd.symm.trans he')
      exact hne (Option.some.inj hparent).symm
    · rw [h.kept p hp, hdoc] at hd
      split at hd
      -- The document of the page itself still names it only if it was its own parent.
      next hT =>
        obtain ⟨e, he, rfl⟩ := Option.map_eq_some_iff.1 hd
        exact hp (hT ▸ List.mem_append.2 (.inr (hself ((mem_childrenOf hs).2 ⟨e, he, hparent⟩))))
      · split at hd
        · cases hd
        next hF => exact hp (hlisted p d hF hd hparent)

end Store

namespace Repository

variable {r r' : Repository} {F T p : Page}

theorem reparented_apply (hs : r.store.Reachable) (hp : r.store.hasPage p = true)
    (h : r.apply (.reparent p T) = (.ok (), r')) : Store.Reparented T [p] r.store r'.store := by
  obtain ⟨d, hd⟩ := Option.isSome_iff_exists.1 hp
  obtain ⟨space, hspace, _⟩ := hs.coherent.known p d hd
  simp only [apply] at h
  split at h
  · cases h
  next found hfound =>
    have hdoc := asked_eq_ok hfound
    simp only [Store.document, Page.requireSpace_eq_ok.2 hspace, hd, Option.getD_some,
      Except.ok.injEq] at hdoc
    subst hdoc
    exact Store.reparented_save hs hd (Store.settle_eq_ok (write_eq_ok h))

/-- A run that does not fail has given every page of its list the new parent. -/
theorem reparented_run {batch : Batch} {done total : Nat} {pages : List Page}
    (hs : r.store.Reachable) (hpages : ∀ p ∈ pages, r.store.hasPage p = true)
    (hok : (r.applyFrom batch done total (pages.map fun p => .reparent p T)).1 = .ok ()) :
    Store.Reparented T pages r.store
      (r.applyFrom batch done total (pages.map fun p => .reparent p T)).2.store := by
  induction pages generalizing r done with
  | nil => exact .refl T r.store
  | cons p rest ih =>
    obtain ⟨r', happly, hrun⟩ := applyFrom_cons_eq_ok hok
    have hfirst := reparented_apply hs (hpages p (.head rest)) happly
    have hs' : r'.store.Reachable := by
      have hreach := reachable_apply hs (.reparent p T)
      rwa [happly] at hreach
    have hrest : ∀ q ∈ rest, r'.store.hasPage q = true := by
      intro q hq
      rw [hfirst.hasPage]
      exact hpages q (.tail p hq)
    rw [List.map_cons, hrun] at hok ⊢
    exact hfirst.cons (ih hs' hrest hok)

/-- Renaming a page ends well after the page has been filed under its new reference and then every page
of the list has been given it as its parent. -/
theorem renamePage_eq_ok {pages : List Page} (hs : r.store.Reachable)
    (hpages : ∀ p ∈ pages, p = T ∨ p ≠ F ∧ r.store.hasPage p = true)
    (hok : (r.renamePage F T pages).1 = .ok ()) :
    ∃ now, r.store.rename F T = .ok now ∧
      Store.Reparented T pages now (r.renamePage F T pages).2.store := by
  simp only [renamePage] at hok ⊢
  split at hok
  · cases hok
  next r₁ hperform =>
    have hwrite := perform_eq_ok hperform
    have hrename : r.store.rename F T = .ok r₁.store := Store.settle_eq_ok (write_eq_ok hwrite)
    have hs₁ : r₁.store.Reachable := by
      have hreach := reachable_write hs (.rename F T)
      rwa [hwrite] at hreach
    refine ⟨r₁.store, hrename, reparented_run hs₁ (fun p hp => ?_) hok⟩
    by_cases hT : p = T
    · exact hT ▸ Store.hasPage_rename hrename
    · obtain ⟨hF, hstored⟩ := (hpages p hp).resolve_left hT
      rw [Store.hasPage_rename_of_ne hrename hF hT, hstored]

/-- The pages that are given a new parent when `F` is renamed are stored then. -/
theorem stored_of_followers (hs : r.store.Coherent)
    (hp : p ∈ (r.store.childrenOf F).filter (· != F) ++
      if (r.store.childrenOf F).contains F then [T] else []) :
    p = T ∨ p ≠ F ∧ r.store.hasPage p = true := by
  rcases List.mem_append.1 hp with hp | hp
  · obtain ⟨hchild, hF⟩ := List.mem_filter.1 hp
    exact .inr ⟨by simpa using hF, Store.hasPage_of_mem_childrenOf hs hchild⟩
  · split at hp
    · exact .inl (List.mem_singleton.1 hp)
    · cases hp

theorem pageRenamed_of_ok (hs : r.store.Reachable) (hne : F ≠ T)
    (hok : (r.renamePage F T ((r.store.childrenOf F).filter (· != F) ++
      if (r.store.childrenOf F).contains F then [T] else [])).1 = .ok ()) :
    Store.PageRenamed F T r.store (r.renamePage F T ((r.store.childrenOf F).filter (· != F) ++
      if (r.store.childrenOf F).contains F then [T] else [])).2.store := by
  obtain ⟨now, hrename, hreparented⟩ :=
    renamePage_eq_ok hs (fun p hp => stored_of_followers hs.coherent hp) hok
  refine .of_reparented hs.coherent hne hrename (fun p hp => ?_) (fun hself => ?_) hreparented
  · split at hp
    · exact List.mem_singleton.1 hp
    · cases hp
  · rw [if_pos (List.contains_iff_mem.2 hself)]
    exact .head _

end Repository

namespace Service

/-- A rename of a page that succeeds loses no page and leaves no stale parent. -/
theorem handle_renamed_page {s : Service} {caller : Caller} {request : Request} {F T : Page}
    (hs : s.repository.store.Reachable)
    (hk : s.renamed? caller request = some (.page F, .page T))
    (hok : (s.handle caller request).1 = .ok .done) :
    Store.PageRenamed F T s.repository.store (s.handle caller request).2.repository.store := by
  obtain ⟨ctx, t, source, destination, plan, hrepo, _, hsource, hdestination, hmoves, hdone,
    hafter⟩ := renamed_plan hk hok
  rw [hafter, ← hrepo]
  rw [← hrepo] at hs
  cases hmoves with
  | space hspace => cases hsource.symm.trans hspace
  | attachment hattachment => cases hsource.symm.trans hattachment
  | @page _ _ _ children hpage hother hne _ _ _ _ _ hchildren =>
    cases hsource.symm.trans hpage
    cases hdestination.symm.trans hother
    have hlisted : ctx.repository.store.childrenOf F = children :=
      Except.ok.inj (Repository.asked_eq_ok hchildren)
    subst hlisted
    exact Repository.pageRenamed_of_ok hs hne hdone

/-- A page that is its own parent is renamed to one of its children. -/
theorem handle_renamed_page_to_child :
    let f := Page.inSpace "F" (.topLevel "Main")
    let t := Page.inSpace "T" (.topLevel "Main")
    let own := (Store.empty.write (.save { Document.blank f with parent := some f })).2
    let store := (own.write (.save { Document.blank t with parent := some f })).2
    let s := Service.new (.ofStore store) .standard
    let caller : Caller := ⟨.anonymous, .allowAll⟩
    let request := Request.rename "/spaces/Main/F" "/spaces/Main/T"
    store.Reachable ∧ s.renamed? caller request = some (.page f, .page t) ∧
      (s.handle caller request).1 = .ok .done ∧
      Store.PageRenamed f t store (s.handle caller request).2.repository.store := by
  intro f t own store s caller request
  have hs : store.Reachable := (Store.Reachable.empty.write _).write _
  have hk : s.renamed? caller request = some (.page f, .page t) := by decide
  have hok : (s.handle caller request).1 = .ok .done := by
    dsimp only [f, t, own, store, s, caller, request]
    rfl
  exact ⟨hs, hk, hok, handle_renamed_page hs hk hok⟩

end Service

end WikiMount
