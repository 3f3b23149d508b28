import WikiMount.Proofs.Storage.Consistency
import WikiMount.Proofs.Storage.FailureRules
import WikiMount.Proofs.Storage.Permit

/-!
# Writes that fail on some pages

A failure rule that lists pages is told one page of a write, the one the write is accounted to. A rename and
a move of a file have a second page, the destination, that the rule is not told. So a listed page stays as
it is until a page that is not listed is renamed to it, or a file of such a page is moved to it, and those
are the only writes that get through to it.
-/

namespace WikiMount

namespace Store

/-- The document of a page, or its absence, and the files of the page are the same in two stores. -/
structure SamePage (s s' : Store) (p : Page) : Prop where
  document : s'.documents.get? p = s.documents.get? p
  files : s'.filesOf p = s.filesOf p

/-- A write gives a page the document of another page, or a file of another page that it does not have. -/
def Receives (s : Store) (p : Page) : Write → Prop
  | .rename q destination => destination = p ∧ p.space.isSome = true ∧ s.hasPage q = true
  | .move a b => b.page = p ∧ p.space.isSome = true ∧
    ∃ data, s.content a = .ok data ∧ s.content b ≠ .ok data
  | _ => False

variable {s s' s'' : Store} {p q : Page} {a b : Attachment} {data : Bytes} {w : Write}

theorem SamePage.refl (s : Store) (p : Page) : s.SamePage s p := ⟨rfl, rfl⟩

theorem SamePage.symm (h : s.SamePage s' p) : s'.SamePage s p := ⟨h.document.symm, h.files.symm⟩

theorem SamePage.trans (h : s.SamePage s' p) (h' : s'.SamePage s'' p) : s.SamePage s'' p :=
  ⟨h'.document.trans h.document, h'.files.trans h.files⟩

/-! ## One write -/

theorem filesOf_of_missing (h : s.Upkept) (hp : s.hasPage p = false) : s.filesOf p = .empty := by
  cases hget : s.attachments.get? p with
  | none => rw [filesOf, hget, Option.getD_none]
  | some files => exact absurd (h.held p files hget) (by rw [hp]; exact Bool.false_ne_true)

/-- A write that need not be permitted to touch a page leaves it alone. -/
theorem samePage_of_covers (hs : s.Reachable)
    (hc : (⟨(· ≠ p), (· ≠ p), (· ≠ p), fun _ h => h⟩ : Permit).Covers s w) :
    s.SamePage (s.write w).2 p := by
  have hr := Permit.respected_write hc p
  cases hbefore : s.hasPage p <;> cases hafter : (s.write w).2.hasPage p
  · -- A page that is not stored has no document and no files.
    rw [hasPage_eq, Option.isSome_eq_false_iff, Option.isNone_iff_eq_none] at hbefore hafter
    refine ⟨hafter.trans hbefore.symm, ?_⟩
    rw [filesOf_of_missing (hs.write w).upkept (by rw [hasPage_eq, hafter]; rfl),
      filesOf_of_missing hs.upkept (by rw [hasPage_eq, hbefore]; rfl)]
  · exact absurd rfl (hr.created hbefore hafter)
  · exact absurd rfl (hr.removed hbefore hafter)
  · have hsame := fun hne => hr.changed hbefore hafter hne rfl
    rw [imp_false, not_or, not_not, not_not] at hsame
    exact ⟨hsame.1, hsame.2⟩

/-- A document that is renamed to a page was never there before: it has a new date. -/
theorem not_samePage_rename (hs : s.Reachable) (h : s.rename q p = .ok s') : ¬s.SamePage s' p := by
  intro hsame
  obtain ⟨d, hd⟩ := Option.isSome_iff_exists.1 (hasPage_rename h)
  obtain ⟨e, _, rfl⟩ := Option.map_eq_some_iff.1 ((if_pos rfl).symm.trans
    ((document?_rename h p).symm.trans hd))
  have hwithin := (hs.timed.within p _ (hsame.document.symm.trans hd)).2
  exact Nat.not_succ_le_self s.clock hwithin

theorem rename_eq_error {e : StorageError} (h : s.rename q p = .error e) :
    ¬(p.space.isSome = true ∧ s.hasPage q = true) := by
  rintro ⟨hp, hq⟩
  obtain ⟨space, hspace⟩ := Option.isSome_iff_exists.1 hp
  obtain ⟨d, hd⟩ := Option.isSome_iff_exists.1 hq
  simp [rename, Page.requireSpace_eq_ok.2 hspace, hd] at h

theorem samePage_rename_iff (hs : s.Reachable) :
    s.SamePage (s.write (.rename q p)).2 p ↔ ¬s.Receives p (.rename q p) := by
  cases h : s.rename q p with
  | error e =>
    have hwrite : s.write (.rename q p) = (.error e, s) := by rw [write, h, settle]
    rw [hwrite]
    exact iff_of_true (.refl s p) fun hr => rename_eq_error h hr.2
  | ok s' =>
    have hwrite : s.write (.rename q p) = (.ok (), s') := by rw [write, h, settle]
    obtain ⟨space, _, hspace, _⟩ := rename_eq_ok h
    rw [hwrite]
    refine iff_of_false (not_samePage_rename hs h) (not_not_intro ⟨rfl, ?_, hasPage_of_rename h⟩)
    rw [hspace]
    rfl

/-- A page that gets a file stays the same if it has the file already. -/
theorem samePage_attach_iff (hs : s.Reachable) (hattach : s.attach b data = .ok s') :
    s.SamePage s' b.page ↔ s.content b = .ok data := by
  have hdocument := document?_attach hattach b.page
  obtain ⟨made, hmade, rfl⟩ := attach_eq_ok hattach
  constructor
  · intro hsame
    rw [← content_congr hsame.files, content_putFile, if_pos rfl]
  · intro hcontent
    have hstored := hasPage_of_content hs.upkept hcontent
    have hget : (s.filesOf b.page).get? b.file = some data := by
      simp only [content] at hcontent
      split at hcontent
      next found hfound => rw [hfound, Except.ok.inj hcontent]
      next => cases hcontent
    refine ⟨?_, ?_⟩
    · rw [hdocument, if_neg fun hnew => Bool.false_ne_true (hnew.2.symm.trans hstored)]
    · rw [filesOf_putFile, if_pos rfl, filesOf_ensurePage hmade, SortedMap.insert_eq_self hget]

theorem space_of_attach (hs : s.Reachable) (hattach : s.attach b data = .ok s') :
    b.page.space.isSome = true := by
  have hreachable : s'.Reachable := by
    simpa only [write, hattach, settle] using hs.write (.attach b data)
  have hstored : s'.hasPage b.page = true := by
    obtain ⟨made, hmade, rfl⟩ := attach_eq_ok hattach
    rw [hasPage_eq, documents_putFile]
    exact hasPage_ensurePage hmade
  obtain ⟨space, hspace⟩ := hreachable.coherent.space_of_stored hstored
  rw [hspace]
  rfl

theorem samePage_move_iff (hs : s.Reachable) (hne : a.page ≠ b.page) :
    s.SamePage (s.write (.move a b)).2 b.page ↔ ¬s.Receives b.page (.move a b) := by
  change s.SamePage (s.move a b).2 b.page ↔ _
  have htaken : s.SamePage (s.takeFile a) b.page := ⟨rfl, by rw [filesOf_takeFile, if_neg hne.symm]⟩
  obtain ⟨e, herror, hmove⟩ | ⟨data, hdata, ⟨s', hattach, hmove⟩ | ⟨e, hspace, hmove⟩⟩ :=
    s.move_cases a b <;> rw [hmove]
  · refine iff_of_true (.refl s b.page) ?_
    rintro ⟨_, _, data, hdata, _⟩
    cases herror.symm.trans hdata
  · have hreachable : (s.takeFile a).Reachable := by
      simpa only [write, detach, hdata, settle] using hs.write (.detach a)
    have hkept := samePage_attach_iff hreachable hattach
    rw [content_congr htaken.files] at hkept
    have hreceives : s.Receives b.page (.move a b) ↔ s.content b ≠ .ok data := by
      constructor
      · rintro ⟨_, _, found, hfound, hother⟩
        cases hdata.symm.trans hfound
        exact hother
      · exact fun hother => ⟨rfl, space_of_attach hreachable hattach, data, hdata, hother⟩
    rw [hreceives, not_not, ← hkept]
    exact ⟨htaken.symm.trans, htaken.trans⟩
  · refine iff_of_true htaken ?_
    rintro ⟨_, hsome, _⟩
    rw [hspace] at hsome
    cases hsome

/-- A write that is accounted to another page leaves a page the same unless the page receives something. -/
theorem samePage_write_iff (hs : s.Reachable) (hw : w.page ≠ p) :
    s.SamePage (s.write w).2 p ↔ ¬s.Receives p w := by
  cases w with
  | save d => exact iff_of_true (samePage_of_covers hs (.inl hw)) not_false
  | delete q => exact iff_of_true (samePage_of_covers hs hw) not_false
  | attach a data => exact iff_of_true (samePage_of_covers hs hw) not_false
  | detach a => exact iff_of_true (samePage_of_covers hs hw) not_false
  | rename q destination =>
    by_cases hd : destination = p
    · subst hd
      exact samePage_rename_iff hs
    · have hc := samePage_of_covers hs (w := .rename q destination) ⟨hw, fun _ => hd, fun _ => hd⟩
      exact iff_of_true hc fun hr => hd hr.1
  | move a b =>
    by_cases hd : b.page = p
    · subst hd
      exact samePage_move_iff hs hw
    · exact iff_of_true (samePage_of_covers hs ⟨hw, hd⟩) fun hr => hd hr.1

end Store

namespace Repository

variable {r : Repository} {pages : List Page} {p : Page}

/-! ## Runs -/

theorem reachable_after (hs : r.store.Reachable) (calls : List Call) :
    (r.after calls).store.Reachable := by
  induction calls generalizing r with
  | nil => exact hs
  | cons call calls ih =>
    cases call with
    | ask query => exact ih hs
    | write w => exact ih (reachable_write hs w)

/-- A write changes a listed page exactly if the page receives something from a page that is not listed. -/
theorem samePage_write_iff (hs : r.store.Reachable) (hbroken : r.broken = [])
    (hrule : r.failure = .onPages pages) (hp : p ∈ pages) (w : Write) :
    r.store.SamePage (r.write w).2.store p ↔ (w.page ∉ pages → ¬r.store.Receives p w) := by
  by_cases hw : w.page ∈ pages
  · have hstopped : r.failure.stops r.writes w.page = true := by simpa [hrule, FailureRule.stops] using hw
    rw [write_of_stopped hbroken hstopped]
    exact iff_of_true (.refl r.store p) fun hnot => absurd hw hnot
  · have hpassed : r.failure.stops r.writes w.page = false := by simpa [hrule, FailureRule.stops] using hw
    have hne : w.page ≠ p := fun h => hw (h ▸ hp)
    rw [write_of_passed hbroken hpassed]
    exact (Store.samePage_write_iff hs hne).trans ⟨fun h _ => h, fun h => h hw⟩

/-- Where writes fail on some pages, such a page has its document, or none, and its files all through a run
of calls exactly if no page that is not listed is renamed to it and no file of such a page, unless it has the
file already, is moved to it. -/
theorem listed_kept_iff (hs : r.store.Reachable) (hbroken : r.broken = []) (hp : p ∈ pages)
    (calls : List Call) :
    let limited := r.setFailure (.onPages pages)
    (∀ before, before <+: calls → r.store.SamePage (limited.after before).store p) ↔
      ∀ before w, before ++ [.write w] <+: calls → w.page ∉ pages →
        ¬(limited.after before).store.Receives p w := by
  intro limited
  have hstep : ∀ before w, (limited.after before).store.SamePage
      (limited.after (before ++ [.write w])).store p ↔
        (w.page ∉ pages → ¬(limited.after before).store.Receives p w) := by
    intro before w
    obtain ⟨hworking, hrule⟩ := limited.after_fixed before
    rw [after_append]
    exact samePage_write_iff (reachable_after (r := limited) hs before) (hworking.trans hbroken) hrule hp w
  constructor
  · intro hsame before w hprefix
    have hbefore := hsame before ((List.prefix_append before [.write w]).trans hprefix)
    exact (hstep before w).1 (hbefore.symm.trans (hsame _ hprefix))
  · intro hspared before
    induction before using List.reverseRecOn with
    | nil => exact fun _ => .refl r.store p
    | append_singleton before call ih =>
      intro hprefix
      have hbefore := ih ((List.prefix_append before [call]).trans hprefix)
      cases call with
      | ask query =>
        rw [after_append]
        exact hbefore
      | write w => exact hbefore.trans ((hstep before w).2 (hspared before w hprefix))

/-- Nothing that is accounted to the listed page B gets through, but the page A can take its place. -/
theorem listed_kept_iff_replaced :
    let a := Page.inSpace "A" (.topLevel "Main")
    let b := Page.inSpace "B" (.topLevel "Main")
    let file : Attachment := ⟨b, "b.txt"⟩
    let r := Repository.ofStore ((Store.ofPages [a]).write (.attach file ⟨#[1]⟩)).2
    let limited := r.setFailure (.onPages [b])
    let refused := [.write (.delete b), .write (.detach file), .write (.attach ⟨a, "a.txt"⟩ ⟨#[2]⟩),
      .write (.rename b a)]
    r.store.Reachable ∧ r.broken = [] ∧ b ∈ [b] ∧
      (∀ before, before <+: refused → r.store.SamePage (limited.after before).store b) ∧
      ¬∀ before, before <+: refused ++ [.write (.rename a b)] →
        r.store.SamePage (limited.after before).store b := by
  intro a b file r limited refused
  have hs : r.store.Reachable := (Store.reachable_ofPages [a]).write _
  have hb : b ∈ [b] := List.mem_singleton.2 rfl
  refine ⟨hs, rfl, hb, (listed_kept_iff hs rfl hb refused).2 fun before w hprefix hw => ?_,
    fun hsame => ?_⟩
  · have hmem : Call.write w ∈ refused :=
      hprefix.subset (List.mem_append_right before (List.mem_singleton.2 rfl))
    simp only [refused, List.mem_cons, Call.write.injEq, List.not_mem_nil, or_false] at hmem
    obtain rfl | rfl | rfl | rfl := hmem
    · exact absurd hb hw
    · exact absurd hb hw
    · exact not_false
    · exact absurd hb hw
  · have hspared := (listed_kept_iff hs rfl hb _).1 hsame refused (.rename a b) (List.prefix_refl _)
      (by decide)
    have hstored : (limited.after refused).store.hasPage a = true := by decide +kernel
    exact hspared ⟨rfl, rfl, hstored⟩

end Repository

end WikiMount
