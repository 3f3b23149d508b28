import Mathlib.Data.List.Sort
import WikiMount.Proofs.Storage.Reachable

/-!
# What the store answers

Each query is described by what is in its answer. In a coherent store the queries for documents answer
with the pages that are stored. Queries for the pages of a space answer in ascending order, so the members
of an answer determine it.
-/

namespace WikiMount

namespace SortedMap

variable {α : Type} [Ord α] [Std.TransOrd α]

/-- Lists in strictly ascending order are known from their members. -/
theorem eq_of_ascending {l l' : List α} (h : l.Pairwise fun a b => compare a b = .lt)
    (h' : l'.Pairwise fun a b => compare a b = .lt) (hmem : ∀ a, a ∈ l ↔ a ∈ l') : l = l' := by
  have : Std.Irrefl fun a b : α => compare a b = .lt := ⟨fun a ha => by simp at ha⟩
  have : Std.Antisymm fun a b : α => compare a b = .lt := ⟨fun a b hab hba => by
    rw [Std.OrientedCmp.gt_iff_lt.2 hba] at hab
    cases hab⟩
  exact h.eq_of_mem_iff h' hmem

/-- Nothing is twice in a list in strictly ascending order. -/
theorem nodup_of_ascending {l : List α} (h : l.Pairwise fun a b => compare a b = .lt) : l.Nodup :=
  h.imp fun {a b} hlt heq => by simp [heq] at hlt

/-- A set is known from its members. -/
theorem eq_of_contains [Std.LawfulEqOrd α] {s s' : SortedSet α}
    (h : ∀ a, s.contains a = s'.contains a) : s = s' := by
  refine ext_get? fun a => ?_
  have ha := h a
  simp only [contains] at ha
  cases hs : s.get? a <;> cases hs' : s'.get? a <;> simp_all

end SortedMap

theorem Page.exists_eq_inSpace {p : Page} {space : Space} (h : p.isIn space = true) :
    ∃ name, p = .inSpace name space := by
  obtain ⟨own, name⟩ := p
  obtain rfl : own = some space := by simpa [isIn] using h
  exact ⟨name, rfl⟩

/-- The pages of a space have different names. -/
theorem Page.eq_of_name_eq {p q : Page} {space : Space} (hp : p.isIn space = true)
    (hq : q.isIn space = true) (h : p.name = q.name) : p = q := by
  obtain ⟨name, rfl⟩ := exists_eq_inSpace hp
  obtain ⟨other, rfl⟩ := exists_eq_inSpace hq
  exact congrArg (inSpace · space) h

theorem Space.topLevel_name {space : Space} (h : space.isTopLevel = true) :
    .topLevel space.name = space := by
  obtain ⟨segments⟩ := space
  obtain ⟨name, rfl⟩ := List.length_eq_one_iff.1 (eq_of_beq h)
  rfl

/-- A space that is not at the top is called below the space around it by its name. -/
theorem Space.child_of_parent {nested space : Space} (h : nested.parent = some space) :
    space.child nested.name = nested := by
  obtain ⟨segments⟩ := nested
  simp only [parent] at h
  split at h
  · cases h
  next hlength =>
    obtain rfl := Option.some.inj h
    have hne : segments ≠ [] := by
      rintro rfl
      exact hlength (by decide)
    simp [child, Space.name, List.getLast?_eq_some_getLast hne, List.dropLast_concat_getLast hne]

theorem Space.segments_ne_nil_of_parent {nested space : Space} (h : nested.parent = some space) :
    space.segments ≠ [] := by
  simp only [parent] at h
  split at h
  · cases h
  next hlength =>
    obtain rfl := Option.some.inj h
    intro hnil
    have hzero := congrArg List.length hnil
    simp only [List.length_dropLast, List.length_nil] at hzero
    omega

namespace Store

variable {s : Store} {p : Page} {space : Space}

/-! ## Pages -/

theorem mem_pagesBeginning {beginning : String} : p ∈ s.pagesBeginning space beginning ↔
    s.hasPage p = true ∧ p.isIn space = true ∧
      (Text.upperChars beginning.toList).isPrefixOf (Text.upperChars p.name.toList) = true := by
  rw [pagesBeginning, List.mem_filter, SortedMap.mem_keys, Bool.and_eq_true]
  exact Iff.rfl

theorem mem_pagesWithFiles :
    p ∈ s.pagesWithFiles space ↔ p.isIn space = true ∧ (s.filesOf p).isEmpty = false := by
  simp only [pagesWithFiles, List.mem_map, List.mem_filter, Bool.and_eq_true, Bool.not_eq_true']
  constructor
  · rintro ⟨⟨q, files⟩, ⟨hmem, hin, hfiles⟩, rfl⟩
    have hget : s.attachments.get? q = some files := SortedMap.mem_entries.1 hmem
    refine ⟨hin, ?_⟩
    rw [filesOf, hget]
    exact hfiles
  · rintro ⟨hin, hfiles⟩
    cases hget : s.attachments.get? p with
    | none =>
      rw [filesOf, hget] at hfiles
      cases hfiles
    | some files =>
      rw [filesOf, hget] at hfiles
      exact ⟨(p, files), ⟨SortedMap.mem_entries.2 hget, hin, hfiles⟩, rfl⟩

theorem mem_childrenOf (hs : s.Coherent) {parent : Page} :
    p ∈ s.childrenOf parent ↔ ∃ d, s.documents.get? p = some d ∧ d.parent = some parent := by
  simp only [childrenOf, List.mem_map, List.mem_filter, SortedMap.mem_values, beq_iff_eq]
  constructor
  · rintro ⟨d, ⟨⟨q, hq⟩, hparent⟩, rfl⟩
    exact ⟨d, by rwa [hs.filed q d hq], hparent⟩
  · rintro ⟨d, hd, hparent⟩
    exact ⟨d, ⟨⟨p, hd⟩, hparent⟩, hs.filed p d hd⟩

/-- A selection of the documents refers to each page once. -/
theorem references_nodup (hs : s.Coherent) (p : Document → Bool) :
    ((s.documents.values.filter p).map Document.reference).Nodup := by
  have hkeys : s.documents.values.map Document.reference = s.documents.keys := by
    simp only [SortedMap.values, SortedMap.keys, List.map_map]
    exact List.map_congr_left fun e he => hs.filed e.1 e.2 (SortedMap.mem_entries.1 he)
  have hsub : ((s.documents.values.filter p).map Document.reference).Sublist
      (s.documents.values.map Document.reference) :=
    List.filter_sublist.map _
  exact (hkeys ▸ s.documents.keys_nodup).sublist hsub

/-- Each child is answered once. -/
theorem childrenOf_nodup (hs : s.Coherent) (parent : Page) : (s.childrenOf parent).Nodup :=
  references_nodup hs _

/-- Each orphan is answered once. -/
theorem orphans_nodup (hs : s.Coherent) : s.orphans.Nodup := references_nodup hs _

theorem hasPage_of_mem_childrenOf (hs : s.Coherent) {parent : Page} (h : p ∈ s.childrenOf parent) :
    s.hasPage p = true := by
  obtain ⟨d, hd, _⟩ := (mem_childrenOf hs).1 h
  rw [hasPage_eq, hd]
  rfl

theorem mem_orphans (hs : s.Coherent) : p ∈ s.orphans ↔
    ∃ d, s.documents.get? p = some d ∧ ∀ parent, d.parent = some parent → s.hasPage parent = false := by
  simp only [orphans, List.mem_map, List.mem_filter, SortedMap.mem_values, Option.all_eq_true,
    Bool.not_eq_true']
  constructor
  · rintro ⟨d, ⟨⟨q, hq⟩, hparent⟩, rfl⟩
    exact ⟨d, by rwa [hs.filed q d hq], hparent⟩
  · rintro ⟨d, hd, hparent⟩
    exact ⟨d, ⟨⟨p, hd⟩, hparent⟩, hs.filed p d hd⟩

theorem hasPage_of_mem_orphans (hs : s.Coherent) (h : p ∈ s.orphans) : s.hasPage p = true := by
  obtain ⟨d, hd, _⟩ := (mem_orphans hs).1 h
  rw [hasPage_eq, hd]
  rfl

/-! ## Order -/

theorem pagesIn_ascending (s : Store) (space : Space) :
    (s.pagesIn space).Pairwise fun p q => compare p q = .lt :=
  s.documents.keys_ascending.filter _

theorem pagesIn_nodup (s : Store) (space : Space) : (s.pagesIn space).Nodup :=
  SortedMap.nodup_of_ascending (s.pagesIn_ascending space)

theorem pagesBeginning_ascending (s : Store) (space : Space) (beginning : String) :
    (s.pagesBeginning space beginning).Pairwise fun p q => compare p q = .lt :=
  s.documents.keys_ascending.filter _

theorem pagesWithFiles_ascending (s : Store) (space : Space) :
    (s.pagesWithFiles space).Pairwise fun p q => compare p q = .lt :=
  List.pairwise_map.2 (s.attachments.ascending.filter _)

/-! ## Spaces -/

theorem mem_allSpaces : space ∈ s.allSpaces ↔ s.hasSpace space = true := SortedMap.mem_keys

theorem hasSpace_of_mem_spacesIn {name : String} (h : name ∈ s.spacesIn space) :
    s.hasSpace (space.child name) = true := by
  obtain ⟨nested, hnested, rfl⟩ := List.mem_map.1 h
  obtain ⟨hknown, hparent⟩ := List.mem_filter.1 hnested
  rw [Space.child_of_parent (eq_of_beq hparent)]
  exact SortedMap.mem_keys.1 hknown

theorem mem_spacesIn (hspace : space.segments ≠ []) {name : String}
    (h : s.hasSpace (space.child name) = true) : name ∈ s.spacesIn space := by
  have hparent : (space.child name).parent == some space := by
    rw [Space.parent_child space name hspace]
    exact beq_self_eq_true _
  exact List.mem_map.2 ⟨space.child name,
    List.mem_filter.2 ⟨SortedMap.mem_keys.2 h, hparent⟩, Space.name_child space name⟩

theorem mem_topLevelSpaces {name : String} :
    name ∈ s.topLevelSpaces ↔ s.hasSpace (.topLevel name) = true := by
  simp only [topLevelSpaces, List.mem_map, List.mem_filter, SortedMap.mem_keys]
  constructor
  · rintro ⟨space, ⟨hknown, htop⟩, rfl⟩
    rw [Space.topLevel_name htop]
    exact hknown
  · exact fun h => ⟨.topLevel name, ⟨h, rfl⟩, rfl⟩

theorem spacesIn_nodup (s : Store) (space : Space) : (s.spacesIn space).Nodup := by
  refine List.Nodup.map_on ?_ (s.spaces.keys_nodup.filter _)
  intro nested hnested other hother hname
  have hparent : nested.parent = some space := eq_of_beq (List.mem_filter.1 hnested).2
  have hparent' : other.parent = some space := eq_of_beq (List.mem_filter.1 hother).2
  rw [← Space.child_of_parent hparent, ← Space.child_of_parent hparent', hname]

theorem topLevelSpaces_nodup (s : Store) : s.topLevelSpaces.Nodup := by
  refine List.Nodup.map_on ?_ (s.spaces.keys_nodup.filter _)
  intro space hspace other hother hname
  rw [← Space.topLevel_name (List.mem_filter.1 hspace).2, hname,
    Space.topLevel_name (List.mem_filter.1 hother).2]

/-- The document of a stored page is the one that is filed. -/
theorem document_eq_ok_iff (hs : s.Coherent) {page : Page} (hstored : s.hasPage page = true)
    {d : Document} : s.document page = .ok d ↔ s.documents.get? page = some d := by
  obtain ⟨space, hspace⟩ := hs.space_of_stored hstored
  obtain ⟨found, hfound⟩ := Option.isSome_iff_exists.1 hstored
  simp [document, Page.requireSpace_eq_ok.2 hspace, hfound]

/-- A document that is not new is one of a stored page. -/
theorem hasPage_of_document {page : Page} {d : Document} (h : s.document page = .ok d)
    (hnew : d.isNew = false) : s.hasPage page = true := by
  simp only [document] at h
  split at h
  · cases hd : s.documents.get? page with
    | some _ => rw [hasPage_eq, hd]; rfl
    | none =>
      rw [hd] at h
      obtain rfl := Except.ok.inj h
      cases hnew
  · cases h

/-- A file that a page holds has content. -/
theorem exists_content {a : Attachment} (h : a.file ∈ (s.filesOf a.page).keys) :
    ∃ data, s.content a = .ok data := by
  obtain ⟨data, hdata⟩ := Option.isSome_iff_exists.1 (SortedMap.mem_keys.1 h)
  exact ⟨data, by rw [content, hdata]⟩

/-- A page holds exactly the files that have content. -/
theorem mem_files_iff {a : Attachment} :
    a.file ∈ (s.filesOf a.page).keys ↔ ∃ data, s.content a = .ok data := by
  refine ⟨exists_content, ?_⟩
  rintro ⟨data, hdata⟩
  simp only [content] at hdata
  split at hdata
  next found hfound => exact SortedMap.mem_keys.2 (Option.isSome_iff_exists.2 ⟨found, hfound⟩)
  · cases hdata

end Store

end WikiMount
