import WikiMount.Proofs.Storage.Reachable

/-!
# Permits

A permit names the pages that may be created, removed and changed. What happened to a page between
two stores respects a permit if the store gained, lost or altered the page only as the permit says.
Steps that respect a permit compose, so a run respects it if each of its writes does, and a write
respects it if the permit covers the pages that the write is about to touch.
-/

namespace WikiMount

structure Permit where
  create : Page → Prop
  remove : Page → Prop
  change : Page → Prop
  /-- Whoever may create a page may change it. -/
  change_of_create : ∀ p, create p → change p

namespace Permit

/-- What became of a page from one store to another is permitted. -/
structure Respected (P : Permit) (s s' : Store) (p : Page) : Prop where
  created : s.hasPage p = false → s'.hasPage p = true → P.create p
  removed : s.hasPage p = true → s'.hasPage p = false → P.remove p
  changed : s.hasPage p = true → s'.hasPage p = true →
    (s'.documents.get? p ≠ s.documents.get? p ∨ s'.filesOf p ≠ s.filesOf p) → P.change p

variable {P : Permit} {s s' s'' : Store} {p q : Page}

namespace Respected

theorem of_same (hd : s'.documents.get? p = s.documents.get? p) (hf : s'.filesOf p = s.filesOf p) :
    P.Respected s s' p where
  created h h' := by rw [Store.hasPage_congr hd, h] at h'; cases h'
  removed h h' := by rw [Store.hasPage_congr hd, h] at h'; cases h'
  changed _ _ hne := by simp [hd, hf] at hne

theorem of_kept (hp : s'.hasPage p = s.hasPage p) (hc : P.change p) : P.Respected s s' p where
  created h h' := by rw [hp, h] at h'; cases h'
  removed h h' := by rw [hp, h] at h'; cases h'
  changed _ _ _ := hc

theorem of_create (hp : s'.hasPage p = true) (hc : P.create p) : P.Respected s s' p where
  created _ _ := hc
  removed _ h' := by rw [hp] at h'; cases h'
  changed _ _ _ := P.change_of_create p hc

theorem of_remove (hp : s'.hasPage p = false) (hr : P.remove p) : P.Respected s s' p where
  created _ h' := by rw [hp] at h'; cases h'
  removed _ _ := hr
  changed _ h' _ := by rw [hp] at h'; cases h'

theorem refl (P : Permit) (s : Store) (p : Page) : P.Respected s s p := of_same rfl rfl

theorem trans (h : P.Respected s s' p) (h' : P.Respected s' s'' p) : P.Respected s s'' p where
  created h₀ h₂ := by
    cases h₁ : s'.hasPage p with
    | true => exact h.created h₀ h₁
    | false => exact h'.created h₁ h₂
  removed h₀ h₂ := by
    cases h₁ : s'.hasPage p with
    | true => exact h'.removed h₁ h₂
    | false => exact h.removed h₀ h₁
  changed h₀ h₂ hne := by
    cases h₁ : s'.hasPage p with
    | true =>
      by_cases hd : s'.documents.get? p = s.documents.get? p ∧ s'.filesOf p = s.filesOf p
      · exact h'.changed h₁ h₂ (by rwa [hd.1, hd.2])
      · exact h.changed h₀ h₁ (Decidable.not_and_iff_not_or_not.1 hd)
    -- A page that was gone in between has been created again.
    | false => exact P.change_of_create p (h'.created h₁ h₂)

end Respected

/-- The permit allows what a write is about to do to a store. -/
def Covers (P : Permit) (s : Store) : Write → Prop
  | .save d => P.create d.reference ∨ s.hasPage d.reference = true ∧ P.change d.reference
  | .delete p => P.remove p
  | .rename p q =>
    P.remove p ∧ (s.hasPage q = true → P.change q) ∧ (s.hasPage q = false → P.create q)
  | .attach a _ => P.create a.page
  | .detach a => P.change a.page
  | .move a b => P.change a.page ∧ P.create b.page

theorem respected_save {d : Document} (h : s.save d = .ok s') (hc : P.Covers s (.save d)) (p : Page) :
    P.Respected s s' p := by
  by_cases hp : p = d.reference
  · subst hp
    have hstored : s'.hasPage d.reference = true := by
      rw [Store.hasPage_eq, Store.document?_save h, if_pos rfl]
      rfl
    rcases hc with hc | ⟨hs, hc⟩
    · exact .of_create hstored hc
    · exact .of_kept (hstored.trans hs.symm) hc
  · exact .of_same (by rw [Store.document?_save h, if_neg hp]) (Store.filesOf_save h p)

theorem respected_delete (h : s.delete q = .ok s') (hc : P.remove q) (p : Page) :
    P.Respected s s' p := by
  have hdoc := Store.document?_delete h p
  have hfiles := Store.filesOf_delete h p
  by_cases hp : p = q
  · subst hp
    rw [if_pos rfl] at hdoc
    exact .of_remove (by rw [Store.hasPage_eq, hdoc]; rfl) hc
  · rw [if_neg hp] at hdoc hfiles
    exact .of_same hdoc hfiles

theorem respected_rename {src dst : Page} (h : s.rename src dst = .ok s')
    (hc : P.Covers s (.rename src dst)) (p : Page) : P.Respected s s' p := by
  obtain ⟨hremove, hchange, hcreate⟩ := hc
  have hdoc := Store.document?_rename h p
  by_cases hd : p = dst
  · subst hd
    have hstored : s'.hasPage p = true := Store.hasPage_rename h
    cases hs : s.hasPage p with
    | true => exact .of_kept (hstored.trans hs.symm) (hchange hs)
    | false => exact .of_create hstored (hcreate hs)
  · rw [if_neg hd] at hdoc
    by_cases hp : p = src
    · subst hp
      rw [if_pos rfl] at hdoc
      exact .of_remove (by rw [Store.hasPage_eq, hdoc]; rfl) hremove
    · rw [if_neg hp] at hdoc
      exact .of_same hdoc (Store.filesOf_rename_of_ne h hp hd)

theorem respected_attach {a : Attachment} {data : Bytes} (h : s.attach a data = .ok s')
    (hc : P.create a.page) (p : Page) : P.Respected s s' p := by
  obtain ⟨made, hm, rfl⟩ := Store.attach_eq_ok h
  by_cases hp : p = a.page
  · subst hp
    have hstored := Store.hasPage_ensurePage hm
    rw [Store.hasPage_eq] at hstored
    exact .of_create (by rwa [Store.hasPage_eq, Store.documents_putFile]) hc
  · refine .of_same ?_ ?_
    · rw [Store.documents_putFile, Store.document?_ensurePage hm hp]
    · rw [Store.filesOf_putFile, if_neg hp, Store.filesOf_ensurePage hm]

theorem respected_takeFile {a : Attachment} (hc : P.change a.page) (p : Page) :
    P.Respected s (s.takeFile a) p := by
  by_cases hp : p = a.page
  · exact .of_kept rfl (hp ▸ hc)
  · exact .of_same rfl (by rw [Store.filesOf_takeFile, if_neg hp])

/-- A write that a permit covers respects it, also where the write fails. -/
theorem respected_write {w : Write} (hc : P.Covers s w) (p : Page) :
    P.Respected s (s.write w).2 p := by
  have hkept : P.Respected s s p := .refl P s p
  cases w with
  | save d => exact Store.settle_invariant (P.Respected s · p) hkept fun _ hs => respected_save hs hc p
  | delete q =>
    exact Store.settle_invariant (P.Respected s · p) hkept fun _ hs => respected_delete hs hc p
  | rename src dst =>
    exact Store.settle_invariant (P.Respected s · p) hkept fun _ hs => respected_rename hs hc p
  | attach a data =>
    exact Store.settle_invariant (P.Respected s · p) hkept fun _ hs => respected_attach hs hc p
  | detach a =>
    exact Store.settle_invariant (P.Respected s · p) hkept fun _ hs =>
      Store.detach_eq_ok hs ▸ respected_takeFile hc p
  | move a b =>
    change P.Respected s (s.move a b).2 p
    obtain ⟨e, _, he⟩ | ⟨data, _, ⟨s', hs, he⟩ | ⟨e, _, he⟩⟩ := Store.move_cases s a b
    · exact he ▸ hkept
    · exact he ▸ (respected_takeFile hc.1 p).trans (respected_attach hs hc.2 p)
    · exact he ▸ respected_takeFile hc.1 p

end Permit

end WikiMount
