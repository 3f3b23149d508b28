import WikiMount.Node.Members
import WikiMount.Proofs.Storage.Queries
import WikiMount.Proofs.Text.Uppercase

/-!
# Letter groups hold what they are made of

The key of a page name is the uppercase form of a beginning of the name. It is accepted as a key, since
uppercase text stays uppercase, and the group of that key holds the page. The store answers for the key
with just the pages that the group holds. The name of a group is read back as that group, in any case of
its letters, and is taken for nothing else on the way.
-/

namespace WikiMount

open Text (uppercase upperChar upperChars upperChars_upperChars uppercase_ofList_upperChars
  upperChars_eq_nil toList_uppercase upperChars_append upperChar_ne_nil eq_of_mem_upperChar)

namespace LetterGroup

variable {names : List String} {name key : String} {length : Nat} {g : LetterGroup}

theorem ofKey_eq_ok : ofKey key = .ok g ↔ g.key = key := by
  simp only [ofKey]
  split
  · constructor
    · intro h
      exact congrArg LetterGroup.key (Except.ok.inj h).symm
    · rintro rfl
      rfl
  next hnot =>
    constructor
    · intro h
      cases h
    · rintro rfl
      exact absurd ⟨g.key_ne_empty, g.uppercase_key⟩ hnot

theorem toOption_ofKey_eq_some : (ofKey key).toOption = some g ↔ g.key = key := by
  rw [← ofKey_eq_ok]
  cases ofKey key <;> simp [Except.toOption]

@[simp] theorem upperChars_key (g : LetterGroup) : upperChars g.key.toList = g.key.toList := by
  have h := congrArg String.toList g.uppercase_key
  rwa [toList_uppercase] at h

/-! ## Keys -/

/-- A name that is not empty has a key. -/
theorem exists_key (hname : name ≠ "") (hlength : 0 < length) :
    ∃ g : LetterGroup, g.key = bucketKey name length := by
  have hbeginning : name.toList.take length ≠ [] := by
    intro h
    rcases List.take_eq_nil_iff.1 h with hzero | hnil
    · omega
    · exact hname (String.toList_eq_nil_iff.1 hnil)
  have hne : bucketKey name length ≠ "" := by
    intro h
    have hnil := congrArg String.toList h
    rw [bucketKey, String.toList_ofList] at hnil
    exact hbeginning (upperChars_eq_nil.1 hnil)
  exact ⟨⟨bucketKey name length, hne, uppercase_ofList_upperChars _⟩, rfl⟩

/-- A page belongs to the group of its key. -/
theorem holds_of_key (h : g.key = bucketKey name length) : g.holds name = true := by
  have hsplit : upperChars name.toList =
      upperChars (name.toList.take length) ++ upperChars (name.toList.drop length) := by
    rw [← upperChars_append, List.take_append_drop]
  rw [holds, h, bucketKey, String.toList_ofList, List.isPrefixOf_iff_prefix, hsplit]
  exact List.prefix_append _ _

/-- The store answers for the key of a group with the pages of the space that the group holds, in their
order. -/
theorem pagesBeginning_key (g : LetterGroup) (s : Store) (space : Space) :
    s.pagesBeginning space g.key = (s.pagesIn space).filter fun page => g.holds page.name := by
  rw [Store.pagesBeginning, Store.pagesIn, List.filter_filter, upperChars_key]
  exact List.filter_congr fun page _ => Bool.and_comm _ _

theorem mem_pagesBeginning_key {s : Store} {page : Page} {space : Space} :
    page ∈ s.pagesBeginning space g.key ↔
      s.hasPage page = true ∧ page.isIn space = true ∧ g.holds page.name = true := by
  rw [pagesBeginning_key, List.mem_filter, Store.mem_pagesIn, and_assoc]

theorem mem_buckets : key ∈ buckets names length ↔ ∃ name ∈ names, bucketKey name length = key := by
  rw [buckets, SortedMap.mem_keys, SortedSet.ofList, SortedSet.contains_addAll]
  simp [SortedMap.contains]

theorem mem_groups :
    g ∈ Context.groups names length ↔ ∃ name ∈ names, bucketKey name length = g.key := by
  simp only [Context.groups, List.mem_filterMap, toOption_ofKey_eq_some, exists_eq_right', mem_buckets]

/-- Each group is made once. -/
theorem groups_nodup (names : List String) (length : Nat) : (Context.groups names length).Nodup := by
  refine List.Nodup.filterMap ?_ (SortedMap.keys_nodup _)
  intro key other g hg hg'
  exact (toOption_ofKey_eq_some.1 hg).symm.trans (toOption_ofKey_eq_some.1 hg')

/-- A group that is made of some pages holds one of them. -/
theorem holds_of_mem_groups {pages : List Page}
    (h : ∃ letters, g ∈ Context.groups (pages.map Page.name) letters) :
    ∃ page ∈ pages, g.holds page.name = true := by
  obtain ⟨letters, hg⟩ := h
  obtain ⟨name, hname, hkey⟩ := mem_groups.1 hg
  obtain ⟨page, hpage, rfl⟩ := List.mem_map.1 hname
  exact ⟨page, hpage, holds_of_key hkey.symm⟩

/-! ## Names -/

theorem toList_name (g : LetterGroup) : g.name.toList = '_' :: (g.key.toList ++ ['_']) :=
  String.toList_ofList

/-- There is a key between the markers of a name. -/
theorem two_lt_length_name (g : LetterGroup) : 2 < g.name.toList.length := by
  have hkey : g.key.toList ≠ [] := fun h => g.key_ne_empty (String.toList_eq_nil_iff.1 h)
  have hpos := List.length_pos_iff.2 hkey
  simp only [toList_name, List.length_cons, List.length_append, List.length_nil]
  omega

theorem head?_name (g : LetterGroup) : g.name.toList.head? = some '_' := by
  rw [toList_name]
  rfl

theorem getLast?_name (g : LetterGroup) : g.name.toList.getLast? = some '_' := by
  rw [toList_name, ← List.cons_append]
  exact List.getLast?_concat

@[simp] theorem upperChar_marker : upperChar '_' = ['_'] := by decide

/-- Markers at the two ends stay there in uppercase. -/
theorem upperChars_marked (key : List Char) :
    upperChars ('_' :: (key ++ ['_'])) = '_' :: (upperChars key ++ ['_']) := by
  simp [upperChars]

theorem uppercase_name (g : LetterGroup) : uppercase g.name = g.name := by
  apply String.toList_injective
  rw [toList_uppercase, toList_name, upperChars_marked, upperChars_key]

/-- Nothing but the marker becomes the marker in uppercase. -/
theorem eq_marker_of_mem_upperChar {c : Char} (h : '_' ∈ upperChar c) : c = '_' :=
  (eq_of_mem_upperChar (by decide +kernel) h).symm

/-- Nothing that becomes the name of a group in uppercase is as short as two markers without a key. -/
theorem length_ne_two_of_uppercase {token : String} (h : uppercase token = g.name) :
    token.toList.length ≠ 2 := by
  intro htwo
  obtain ⟨c, d, hcd⟩ := List.length_eq_two.1 htwo
  have hname : g.name.toList = upperChar c ++ upperChar d := by
    rw [← h, toList_uppercase, hcd]
    simp [upperChars]
  have hfirst := g.head?_name
  rw [hname, List.head?_append_of_ne_nil _ (upperChar_ne_nil c)] at hfirst
  have hlast := g.getLast?_name
  rw [hname, List.getLast?_append_of_ne_nil _ (upperChar_ne_nil d)] at hlast
  obtain rfl := eq_marker_of_mem_upperChar (List.mem_of_head? hfirst)
  obtain rfl := eq_marker_of_mem_upperChar (List.mem_of_getLast? hlast)
  have hlength := g.two_lt_length_name
  rw [hname, upperChar_marker] at hlength
  simp at hlength

theorem ofName_name (g : LetterGroup) : ofName g.name = .ok g := by
  have hkey : keyOfName? g.name.toList = some g.key.toList := by
    rw [toList_name]
    simp [keyOfName?, ReservedName.groupMarker]
  rw [ofName, hkey]
  simp only [String.ofList_toList]
  exact ofKey_eq_ok.2 rfl

/-- A token is read as the group whose name it becomes in uppercase. -/
theorem ofToken_of_uppercase {token : String} (h : uppercase token = g.name) :
    ofToken token = .ok g := by
  rw [ofToken, if_neg (length_ne_two_of_uppercase h), h, ofName_name]

/-- The name of a group is read back as that group. -/
theorem ofToken_name (g : LetterGroup) : ofToken g.name = .ok g :=
  ofToken_of_uppercase g.uppercase_name

theorem eq_of_name_eq {g' : LetterGroup} (h : g.name = g'.name) : g = g' := by
  have hread := g.ofToken_name
  rw [h, ofToken_name] at hread
  exact (Except.ok.inj hread).symm

theorem isGroup_name (g : LetterGroup) : ReservedName.isGroup g.name = true := by
  have hlength : 2 ≤ g.name.toList.length := g.two_lt_length_name.le
  simp [ReservedName.isGroup, head?_name, getLast?_name, hlength, ReservedName.groupMarker]

/-- The name of a letter group is not that of a scratch file. -/
theorem isScratch_of_isGroup (h : ReservedName.isGroup name = true) :
    ReservedName.isScratch name = false := by
  simp only [ReservedName.isGroup, Bool.and_eq_true, beq_iff_eq] at h
  obtain ⟨⟨_, hhead⟩, hlast⟩ := h
  have hfirst : (ReservedName.asciiLower name).head? = some '_' := by
    rw [ReservedName.asciiLower, List.head?_map, hhead]
    rfl
  have hlower : ∀ text : List Char, text.head? ≠ some '_' → ReservedName.asciiLower name ≠ text := by
    rintro _ hne rfl
    exact hne hfirst
  simp only [ReservedName.isScratch, hhead, hlast, Bool.or_eq_false_iff, beq_eq_false_iff_ne]
  exact ⟨⟨⟨by decide, by decide⟩, hlower _ (by decide)⟩, hlower _ (by decide)⟩

theorem isScratch_name (g : LetterGroup) : ReservedName.isScratch g.name = false :=
  isScratch_of_isGroup g.isGroup_name

/-! ## From a page name to its group -/

/-- The key of a page name makes a group. Its name is shaped like that of a group, it is read from every
token that becomes the name in uppercase, it holds the page, and for its key the store answers with the
pages of a space that it holds, in their order. -/
theorem ofKey_bucketKey (hname : name ≠ "") (hlength : 1 ≤ length) :
    ∃ g, ofKey (bucketKey name length) = .ok g ∧
      ReservedName.isGroup g.name = true ∧
      (∀ token, uppercase token = g.name → ofToken token = .ok g) ∧
      g.holds name = true ∧
      ∀ (s : Store) (space : Space), s.pagesBeginning space (bucketKey name length) =
        (s.pagesIn space).filter fun page => g.holds page.name := by
  obtain ⟨g, hkey⟩ := exists_key hname hlength
  refine ⟨g, ofKey_eq_ok.2 hkey, g.isGroup_name, fun _ => ofToken_of_uppercase, holds_of_key hkey, ?_⟩
  intro s space
  rw [← hkey]
  exact g.pagesBeginning_key s space

/-- A marker at the beginning of a page name becomes part of the key, and a letter of two uppercase letters
makes the key longer than what it was made of. -/
theorem ofKey_bucketKey_marked :
    let main := Space.topLevel "Main"
    let s := Store.ofPages [.inSpace "_ßa" main, .inSpace "Ssb" main, .inSpace "_ssb" main]
    let g : LetterGroup := ⟨"_SS", by decide, by decide⟩
    ofKey (bucketKey "_ßa" 2) = .ok g ∧ ofToken "__ß_" = .ok g ∧ g.holds "_ßa" = true ∧
      s.pagesBeginning main (bucketKey "_ßa" 2) = [.inSpace "_ssb" main, .inSpace "_ßa" main] := by
  intro main s g
  obtain ⟨made, hmade, _, htoken, hholds, hpages⟩ := @ofKey_bucketKey "_ßa" 2 (by decide) (by decide)
  obtain rfl : g = made := Except.ok.inj ((ofKey_eq_ok.2 (by decide)).symm.trans hmade)
  exact ⟨hmade, htoken "__ß_" (by decide), hholds, (hpages s main).trans (by decide)⟩

end LetterGroup

end WikiMount
