import Mathlib.Data.List.Induction
import WikiMount.Proofs.Storage.Reachable

/-!
# What every write keeps up

With a space the space around it is known, files are held by stored pages only, and a stored document
has been given its date. Every call of the repository keeps this up, whether it succeeds or not, so it
holds of every reachable store.
-/

namespace WikiMount.Store

/-- The spaces, files and documents of a store belong together. -/
structure Upkept (s : Store) : Prop where
  enclosed : ∀ space parent, s.hasSpace space = true → space.parent = some parent →
    s.hasSpace parent = true
  held : ∀ p files, s.attachments.get? p = some files → s.hasPage p = true
  dated : ∀ p d, s.documents.get? p = some d → d.isNew = false ∧ d.createdAt ≠ 0

variable {s s' : Store} {p q : Page} {a b : Attachment}

theorem Upkept.empty : Store.empty.Upkept where
  enclosed space parent hs _ := by cases hs
  held := by simp [Store.empty]
  dated := by simp [Store.empty]

/-! ## Spaces -/

theorem Upkept.registerSpace (h : s.Upkept) (space : Space) : (s.registerSpace space).Upkept where
  enclosed other parent hs hparent := by
    rcases hasSpace_registerSpace.1 hs with hmem | hs
    · exact hasSpace_registerSpace.2 (.inl (Space.parent_mem_lineage hmem hparent))
    · exact hasSpace_registerSpace.2 (.inr (h.enclosed other parent hs hparent))
  held := h.held
  dated := h.dated

/-! ## Documents -/

theorem dated_savedAt (d : Document) (n : Nat) :
    (d.savedAt (n + 1)).isNew = false ∧ (d.savedAt (n + 1)).createdAt ≠ 0 := by
  refine ⟨rfl, ?_⟩
  simp only [Document.savedAt]
  split
  · omega
  next h => simp_all

theorem Upkept.save (h : s.Upkept) {d : Document} (hs : s.save d = .ok s') : s'.Upkept := by
  have hpage : ∀ p, s.hasPage p = true → s'.hasPage p = true := by
    intro p hp
    rw [hasPage_eq] at hp ⊢
    rw [document?_save hs]
    split
    · rfl
    · exact hp
  have hdoc := document?_save hs
  obtain ⟨space, _, rfl⟩ := save_eq_ok hs
  refine ⟨(h.registerSpace space).enclosed, fun p files hf => hpage p (h.held p files hf), ?_⟩
  intro p e he
  rw [hdoc] at he
  split at he
  · obtain rfl := Option.some.inj he
    exact dated_savedAt d s.clock
  · exact h.dated p e he

theorem Upkept.ensurePage (h : s.Upkept) (hs : s.ensurePage p = .ok s') : s'.Upkept := by
  obtain ⟨_, rfl⟩ | ⟨_, hs⟩ := ensurePage_eq_ok hs
  · exact h
  · exact h.save hs

theorem Upkept.delete (h : s.Upkept) (hs : s.delete p = .ok s') : s'.Upkept := by
  have hdoc := document?_delete hs
  obtain ⟨_, rfl⟩ := delete_eq_ok hs
  refine ⟨h.enclosed, fun q files hf => ?_, fun q d hd => ?_⟩
  · simp only [SortedMap.get?_erase, Std.LawfulEqCmp.compare_eq_iff_eq] at hf
    split at hf
    · cases hf
    next hq =>
      have hstored := h.held q files hf
      rw [hasPage_eq] at hstored ⊢
      rwa [hdoc, if_neg hq]
  · rw [hdoc] at hd
    split at hd
    · cases hd
    · exact h.dated q d hd

theorem Upkept.rename (h : s.Upkept) (hs : s.rename p q = .ok s') : s'.Upkept := by
  have hdoc := document?_rename hs
  have hq := hasPage_rename hs
  have hother : ∀ r, r ≠ p → r ≠ q → s'.hasPage r = s.hasPage r := fun r hp hq =>
    hasPage_rename_of_ne hs hp hq
  obtain ⟨space, d, _, hd, rfl⟩ := rename_eq_ok hs
  refine ⟨(h.registerSpace space).enclosed, fun r files hf => ?_, fun r e he => ?_⟩
  · rw [get?_moveFiles] at hf
    split at hf
    next hr => exact hr ▸ hq
    next hr =>
      split at hf
      · cases hf
      next hp =>
        rw [hother r hp hr]
        exact h.held r files hf
  · rw [hdoc] at he
    split at he
    · obtain ⟨e', he', rfl⟩ := Option.map_eq_some_iff.1 he
      exact h.dated p e' he'
    · split at he
      · cases he
      · exact h.dated r e he

/-! ## Files -/

theorem hasPage_of_content (h : s.Upkept) {data : Bytes} (hc : s.content a = .ok data) :
    s.hasPage a.page = true := by
  cases hf : s.attachments.get? a.page with
  | none => simp [content, filesOf, hf] at hc
  | some files => exact h.held a.page files hf

theorem Upkept.putFile (h : s.Upkept) (data : Bytes) (hp : s.hasPage a.page = true) :
    (s.putFile a data).Upkept := by
  refine ⟨h.enclosed, fun q files hf => ?_, h.dated⟩
  simp only [Store.putFile, SortedMap.get?_insert, Std.LawfulEqCmp.compare_eq_iff_eq] at hf
  split at hf
  next hq => exact hq ▸ hp
  · exact h.held q files hf

theorem Upkept.takeFile (h : s.Upkept) (hp : s.hasPage a.page = true) : (s.takeFile a).Upkept := by
  refine ⟨h.enclosed, fun q files hf => ?_, h.dated⟩
  simp only [Store.takeFile, SortedMap.get?_insert, Std.LawfulEqCmp.compare_eq_iff_eq] at hf
  split at hf
  next hq => exact hq ▸ hp
  · exact h.held q files hf

theorem Upkept.attach (h : s.Upkept) {data : Bytes} (hs : s.attach a data = .ok s') : s'.Upkept := by
  obtain ⟨made, hm, rfl⟩ := attach_eq_ok hs
  exact (h.ensurePage hm).putFile data (hasPage_ensurePage hm)

theorem Upkept.detach (h : s.Upkept) (hs : s.detach a = .ok s') : s'.Upkept := by
  simp only [Store.detach] at hs
  split at hs
  next data hc =>
    obtain rfl := Except.ok.inj hs
    exact h.takeFile (hasPage_of_content h hc)
  · cases hs

theorem Upkept.move (h : s.Upkept) (a b : Attachment) : (s.move a b).2.Upkept := by
  simp only [Store.move]
  cases hc : s.content a with
  | error e => exact h
  | ok data =>
    have htaken : (s.takeFile a).Upkept := h.takeFile (hasPage_of_content h hc)
    cases hb : (s.takeFile a).attach b data with
    | error e => simpa [hb] using htaken
    | ok s' => simpa [hb] using htaken.attach hb

/-- Every write, successful or not, keeps up the store. -/
theorem Upkept.write (h : s.Upkept) (w : Write) : (s.write w).2.Upkept := by
  cases w with
  | save d => exact settle_invariant Upkept h fun _ hs => h.save hs
  | delete p => exact settle_invariant Upkept h fun _ hs => h.delete hs
  | rename p q => exact settle_invariant Upkept h fun _ hs => h.rename hs
  | attach a data => exact settle_invariant Upkept h fun _ hs => h.attach hs
  | detach a => exact settle_invariant Upkept h fun _ hs => h.detach hs
  | move a b => exact h.move a b

/-- With a space all spaces around it are known. -/
theorem Upkept.hasSpace_of_beginning (h : s.Upkept) {segments beginning : List String}
    (hs : s.hasSpace ⟨segments⟩ = true) (hne : beginning ≠ []) (hb : beginning <+: segments) :
    s.hasSpace ⟨beginning⟩ = true := by
  induction segments using List.reverseRecOn with
  | nil => exact absurd (List.prefix_nil.1 hb) hne
  | append_singleton around name ih =>
    rcases List.prefix_concat_iff.1 hb with rfl | hb
    · exact hs
    · have haround : around ≠ [] := by
        rintro rfl
        exact hne (List.prefix_nil.1 hb)
      exact ih (h.enclosed _ _ hs (Space.parent_child ⟨around⟩ name haround)) hb

theorem Upkept.hasSpace_of_lineage (h : s.Upkept) {space other : Space}
    (hs : s.hasSpace space = true) (hother : other ∈ space.lineage) : s.hasSpace other = true := by
  rcases List.mem_cons.1 hother with rfl | hother
  · exact hs
  · obtain ⟨beginning, hb, rfl⟩ := List.mem_map.1 hother
    obtain ⟨hne, hb⟩ := Space.mem_beginnings.1 hb
    exact h.hasSpace_of_beginning hs hne (hb.trans (List.dropLast_prefix _))

/-- A page that holds a file is stored. -/
theorem Upkept.hasPage_of_files (h : s.Upkept) (hp : (s.filesOf p).isEmpty = false) :
    s.hasPage p = true := by
  cases hget : s.attachments.get? p with
  | none =>
    rw [filesOf, hget] at hp
    cases hp
  | some files => exact h.held p files hget

theorem Reachable.upkept (h : s.Reachable) : s.Upkept := by
  induction h with
  | empty => exact .empty
  | registerSpace space _ ih => exact ih.registerSpace space
  | write w _ ih => exact ih.write w

end WikiMount.Store
