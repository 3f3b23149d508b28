import WikiMount.Proofs.Change.PageRename

/-!
# What a renamed page keeps of its own

A renamed page keeps its content, its locale and the date of its creation. Its parent is given to it anew
if it is one of the pages that follow the rename. That is meant for a page that is its own parent, but the
pages that follow are listed before the page moves: a child of the page that the page replaces is still on
the list, and under its reference it is the renamed page that becomes its own parent.
-/

namespace WikiMount

namespace Repository

variable {r : Repository} {F T : Page}

/-- The document of a renamed page, whatever pages are given their new parent after it. -/
theorem document_renamePage {pages : List Page} (hs : r.store.Reachable)
    (hpages : ∀ p ∈ pages, p = T ∨ p ≠ F ∧ r.store.hasPage p = true)
    (hok : (r.renamePage F T pages).1 = .ok ()) :
    ∃ d n, r.store.documents.get? F = some d ∧
      (r.renamePage F T pages).2.store.documents.get? T = some { d with
        reference := T, parent := if T ∈ pages then some T else d.parent, updatedAt := n } := by
  obtain ⟨now, hrename, hreparented⟩ := renamePage_eq_ok hs hpages hok
  obtain ⟨_, d, _, hd, _⟩ := Store.rename_eq_ok hrename
  have hfiled := Store.document?_rename hrename T
  rw [if_pos rfl, hd, Option.map_some] at hfiled
  by_cases hT : T ∈ pages
  · obtain ⟨e, n, he, he'⟩ := hreparented.moved T hT
    obtain rfl := Option.some.inj (hfiled.symm.trans he)
    exact ⟨d, n, hd, by rw [he', if_pos hT]⟩
  · exact ⟨d, r.store.clock + 1, hd, by rw [hreparented.kept T hT, hfiled, if_neg hT]⟩

/-- The destination follows a rename if it was a child of the page, or the page was its own parent. -/
theorem mem_followers (hne : F ≠ T) :
    T ∈ (r.store.childrenOf F).filter (· != F) ++
        (if (r.store.childrenOf F).contains F then [T] else []) ↔
      F ∈ r.store.childrenOf F ∨ T ∈ r.store.childrenOf F := by
  have hkept : T ∈ (r.store.childrenOf F).filter (· != F) ↔ T ∈ r.store.childrenOf F := by
    simp [List.mem_filter, hne.symm]
  rw [List.mem_append, hkept, or_comm]
  refine or_congr_left ?_
  split
  next h => simp [List.contains_iff_mem.1 h]
  next h => simpa [List.contains_iff_mem] using h

end Repository

namespace Service

variable {s : Service} {caller : Caller} {request : Request} {F T : Page}

/-- A page that is renamed has its content, its locale and the date of its creation under its new reference.
Its parent is the one that it had, or the page itself if it was its own parent, exactly unless the
destination was a child of the page that had another parent than these two: then it is its own parent
afterwards. -/
theorem handle_renamed_document (hs : s.repository.store.Reachable)
    (hk : s.renamed? caller request = some (.page F, .page T))
    (hok : (s.handle caller request).1 = .ok .done) :
    ∃ d d', s.repository.store.documents.get? F = some d ∧
      (s.handle caller request).2.repository.store.documents.get? T = some d' ∧
      d'.content = d.content ∧ d'.locale = d.locale ∧ d'.createdAt = d.createdAt ∧
      (d'.parent = (if d.parent = some F then some T else d.parent) ↔
        (T ∈ s.repository.store.childrenOf F → d.parent = some F ∨ d.parent = some T)) ∧
      (T ∈ s.repository.store.childrenOf F → d'.parent = some T) := by
  obtain ⟨ctx, t, source, destination, plan, hrepo, _, hsource, hdestination, hmoves, hdone,
    hafter⟩ := renamed_plan hk hok
  rw [hafter, ← hrepo]
  rw [← hrepo] at hs
  cases hmoves with
  | space hspace => cases hsource.symm.trans hspace
  | attachment hattachment => cases hsource.symm.trans hattachment
  | @page _ _ _ children hpage hother hne _ _ _ _ _ hchildren =>
    cases hsource.symm.trans hpage
    cases hdestination.symm.trans hother
    have hlisted : ctx.repository.store.childrenOf F = children :=
      Except.ok.inj (Repository.asked_eq_ok hchildren)
    subst hlisted
    obtain ⟨d, n, hd, hd'⟩ := Repository.document_renamePage hs
      (fun p hp => Repository.stored_of_followers hs.coherent hp) hdone
    have hself : F ∈ ctx.repository.store.childrenOf F ↔ d.parent = some F := by
      simp [Store.mem_childrenOf hs.coherent, hd]
    have hfollows := Repository.mem_followers (r := ctx.repository) hne
    rw [hself] at hfollows
    refine ⟨d, _, hd, hd', rfl, rfl, rfl, ?_, fun hchild => if_pos (hfollows.2 (.inr hchild))⟩
    rw [if_congr hfollows rfl rfl]
    grind

/-- Of three pages in a row the second is renamed to the third, and loses the first one as its parent. -/
theorem handle_renamed_document_over_child :
    let space := Space.topLevel "Main"
    let p := Page.inSpace "P" space
    let f := Page.inSpace "F" space
    let t := Page.inSpace "T" space
    let second := ((Store.ofPages [p]).write (.save { Document.blank f with parent := some p })).2
    let store := (second.write (.save { Document.blank t with parent := some f })).2
    let s := Service.new (.ofStore store) .standard
    let caller : Caller := ⟨.anonymous, .allowAll⟩
    let request := Request.rename "/spaces/Main/F" "/spaces/Main/T"
    let after := (s.handle caller request).2.repository.store
    (s.handle caller request).1 = .ok .done ∧ store.childrenOf p = [f] ∧
      ∃ d', after.documents.get? t = some d' ∧ d'.parent = some t ∧ d'.parent ≠ some p := by
  intro space p f t second store s caller request after
  have hs : store.Reachable := ((Store.reachable_ofPages [p]).write _).write _
  have hk : s.renamed? caller request = some (.page f, .page t) := by decide
  have hok : (s.handle caller request).1 = .ok .done := by
    dsimp only [space, p, f, t, second, store, s, caller, request]
    rfl
  have hchild : t ∈ store.childrenOf f := by decide
  obtain ⟨d, d', _, hd', _, _, _, _, hown⟩ := handle_renamed_document hs hk hok
  refine ⟨hok, by decide, d', hd', hown hchild, fun hfirst => ?_⟩
  exact absurd ((hown hchild).symm.trans hfirst) (by decide)

end Service

end WikiMount
