import WikiMount.Proofs.Storage.Reachable

/-!
# What a write can lose

A write looks at everything that can go wrong before it changes anything, so a write that fails leaves
the store alone, and a page that is renamed takes along all it had. Two writes do not keep to this, and
both lose files: a move takes its file off the page before it finds that the destination has no space,
and a page that is renamed to itself drops its own files to make room for the files that come.
-/

namespace WikiMount

/-- The write takes this file off its page, and has nowhere to put it. -/
def Write.Strands (w : Write) (s : Store) (a : Attachment) : Prop :=
  ∃ destination, w = .move a destination ∧ destination.page.space = none ∧
    ∃ data, s.content a = .ok data

namespace Store

variable {s s' : Store} {w : Write} {a : Attachment} {e : StorageError} {P D : Page}

/-! ## Writes that fail -/

/-- A write that fails leaves the store as it is, unless it has taken off a file that it cannot put
anywhere. -/
theorem write_error_cases (h : (s.write w).1 = .error e) :
    (s.write w).2 = s ∧ (∀ a, ¬w.Strands s a) ∨
      ∃ a, (s.write w).2 = s.takeFile a ∧ ∀ b, w.Strands s b ↔ b = a := by
  have hleft : ∀ {answer : Except StorageError Store}, (∀ a b, w ≠ .move a b) →
      (s.settle answer).1 = .error e →
      (s.settle answer).2 = s ∧ ∀ a, ¬w.Strands s a := by
    intro answer hmove h
    refine ⟨settle_error h, ?_⟩
    rintro a ⟨b, hw, _⟩
    exact hmove a b hw
  cases w with
  | move a b =>
    have hwrite : s.write (.move a b) = s.move a b := rfl
    obtain ⟨_, hnone, he⟩ | ⟨data, hdata, ⟨s', _, he⟩ | ⟨_, hspace, he⟩⟩ := s.move_cases a b
    · refine .inl ⟨by rw [hwrite, he], ?_⟩
      rintro c ⟨_, hw, _, data, hdata⟩
      cases hw
      cases hnone.symm.trans hdata
    · rw [hwrite, he] at h
      cases h
    · refine .inr ⟨a, by rw [hwrite, he], fun c => ⟨?_, ?_⟩⟩
      · rintro ⟨_, hw, _⟩
        exact (Write.move.inj hw).1.symm
      · rintro rfl
        exact ⟨b, rfl, hspace, data, hdata⟩
  | save d => exact .inl (hleft nofun h)
  | delete p => exact .inl (hleft nofun h)
  | rename p q => exact .inl (hleft nofun h)
  | attach a data => exact .inl (hleft nofun h)
  | detach a => exact .inl (hleft nofun h)

/-- A write that fails changes no document, no space and not the time, and a file is there as before
unless the write was to move it to a page without a space: then it is gone. -/
theorem write_failed (h : (s.write w).1 = .error e) :
    (s.write w).2.documents = s.documents ∧ (s.write w).2.spaces = s.spaces ∧
      (s.write w).2.clock = s.clock ∧
      ∀ a, ((s.write w).2.content a = s.content a ↔ ¬w.Strands s a) ∧
        (w.Strands s a → (s.write w).2.content a = .error (.notFound a.text)) := by
  obtain ⟨hsame, hnone⟩ | ⟨a, htaken, hlost⟩ := write_error_cases h
  · rw [hsame]
    exact ⟨rfl, rfl, rfl, fun a => ⟨iff_of_true rfl (hnone a), fun hs => absurd hs (hnone a)⟩⟩
  · rw [htaken]
    refine ⟨rfl, rfl, rfl, fun b => ?_⟩
    rw [content_takeFile]
    by_cases hb : b = a
    · subst hb
      have hs : w.Strands s b := (hlost b).2 rfl
      have ⟨_, _, _, data, hdata⟩ := hs
      rw [if_pos rfl, hdata]
      exact ⟨iff_of_false nofun (not_not_intro hs), fun _ => rfl⟩
    · have hs : ¬w.Strands s b := fun hs => hb ((hlost b).1 hs)
      rw [if_neg hb]
      exact ⟨iff_of_true rfl hs, fun h => absurd h hs⟩

/-- One of two files of a page is moved to a page without a space. -/
theorem write_failed_stranding :
    let page := Page.inSpace "A" (.topLevel "Main")
    let a : Attachment := ⟨page, "a.txt"⟩
    let b : Attachment := ⟨page, "b.txt"⟩
    let s := ((Store.empty.write (.attach a ⟨#[1]⟩)).2.write (.attach b ⟨#[2]⟩)).2
    let w : Write := .move a ⟨.relative "B", "c.txt"⟩
    (s.write w).1 = .error (.invalidReference (.missingSpace "B")) ∧ s.content a = .ok ⟨#[1]⟩ ∧
      (s.write w).2.content a = .error (.notFound a.text) ∧
      (s.write w).2.content b = s.content b ∧ (s.write w).2.documents = s.documents := by
  intro page a b s w
  have hfails : (s.write w).1 = .error (.invalidReference (.missingSpace "B")) := by
    dsimp only [page, a, b, s, w]
    rfl
  have hdata : s.content a = .ok ⟨#[1]⟩ := by
    dsimp only [page, a, b, s]
    rfl
  obtain ⟨hdocuments, _, _, hcontent⟩ := write_failed hfails
  refine ⟨hfails, hdata, (hcontent a).2 ⟨_, rfl, rfl, _, hdata⟩, (hcontent b).1.2 ?_, hdocuments⟩
  rintro ⟨_, hw, _⟩
  exact absurd (Write.move.inj hw).1 (by decide)

/-! ## Renaming a page -/

/-- The page `P` has become the page `D`, apart from its files. -/
structure Refiled (P D : Page) (s s' : Store) : Prop where
  document : ∃ d n, s.documents.get? P = some d ∧
    s'.documents.get? D = some { d with reference := D, updatedAt := n }
  source : P ≠ D → s'.hasPage P = false
  other_documents : ∀ p, p ≠ P → p ≠ D → s'.documents.get? p = s.documents.get? p
  other_files : ∀ p, p ≠ P → p ≠ D → s'.filesOf p = s.filesOf p

theorem refiled_rename (h : s.rename P D = .ok s') : Refiled P D s s' where
  document := by
    obtain ⟨_, d, _, hd, _⟩ := rename_eq_ok h
    refine ⟨d, s.clock + 1, hd, ?_⟩
    rw [document?_rename h, if_pos rfl, hd]
    rfl
  source := hasPage_rename_source h
  other_documents p hP hD := by rw [document?_rename h, if_neg hD, if_neg hP]
  other_files _ hP hD := filesOf_rename_of_ne h hP hD

theorem filesOf_rename_self (h : s.rename P P = .ok s') : s'.filesOf P = .empty := by
  obtain ⟨_, _, _, _, rfl⟩ := rename_eq_ok h
  simp only [filesOf, get?_moveFiles, if_pos]
  rfl

/-- A page that is renamed keeps what it had, other pages are left alone, and only a page that is
renamed to itself loses files, namely all it had. -/
theorem rename_conserves (h : s.write (.rename P D) = (.ok (), s')) :
    Refiled P D s s' ∧ s'.filesOf D = (if P = D then .empty else s.filesOf P) ∧
      (s'.filesOf D = s.filesOf P ↔ P ≠ D ∨ s.filesOf P = .empty) := by
  have hrename : s.rename P D = .ok s' := settle_eq_ok h
  refine ⟨refiled_rename hrename, ?_⟩
  by_cases hPD : P = D
  · subst hPD
    simp [filesOf_rename_self hrename, eq_comm]
  · simp [filesOf_rename hrename hPD, hPD]

/-- A page with a file is renamed in place of another one, and then to itself. -/
theorem rename_conserves_to_self :
    let a := Page.inSpace "A" (.topLevel "Main")
    let b := Page.inSpace "B" (.topLevel "Main")
    let s := ((Store.ofPages [b]).write (.attach ⟨a, "a.txt"⟩ ⟨#[1]⟩)).2
    let moved := (s.write (.rename a b)).2
    let again := (moved.write (.rename b b)).2
    (s.filesOf a).keys = ["a.txt"] ∧ Refiled a b s moved ∧ moved.filesOf b = s.filesOf a ∧
      Refiled b b moved again ∧ again.filesOf b = .empty := by
  intro a b s moved again
  have hheld : (s.filesOf a).keys = ["a.txt"] := by decide
  have hmoved : s.write (.rename a b) = (.ok (), moved) := by
    dsimp only [a, b, s, moved]
    rfl
  have hagain : moved.write (.rename b b) = (.ok (), again) := by
    dsimp only [a, b, s, moved, again]
    rfl
  obtain ⟨hrefiled, _, hkept⟩ := rename_conserves hmoved
  obtain ⟨hrefiled', hlost, _⟩ := rename_conserves hagain
  exact ⟨hheld, hrefiled, hkept.2 (.inl (by decide)), hrefiled', hlost⟩

end Store

end WikiMount
