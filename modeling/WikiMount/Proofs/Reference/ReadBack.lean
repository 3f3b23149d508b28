import WikiMount.Reference.Text

/-!
# Reading back what was written

Splitting a text looks for separators without a mark, and escaping marks every reserved character of a
name, so a text is split exactly where names were joined. In turn the pieces of a text, joined again, are
the text, and a name that was read can have been escaped in one way only. So the texts that are accepted
are those of well-formed spaces, pages and attachments, each of which has a text of its own.
-/

namespace WikiMount

namespace ReferenceText

variable {separator c : Char}

theorem split?_mark (c : Char) (rest : List Char) :
    split? separator ('\\' :: c :: rest) = (split? separator rest).map (extendFirst ['\\', c]) := by
  rw [split?]

theorem split?_of_ne_mark (h : c ≠ '\\') (rest : List Char) :
    split? separator (c :: rest) =
      if c = separator then (split? separator rest).map ([] :: ·)
      else (split? separator rest).map (extendFirst [c]) := by
  rw [split?]
  all_goals simp_all

theorem extendFirst_extendFirst (cs ds : List Char) (pieces : List (List Char)) :
    extendFirst cs (extendFirst ds pieces) = extendFirst (cs ++ ds) pieces := by
  cases pieces with
  | nil => rfl
  | cons piece rest => simp [extendFirst]

theorem map_extendFirst_map (cs ds : List Char) (answer : Option (List (List Char))) :
    (answer.map (extendFirst ds)).map (extendFirst cs) = answer.map (extendFirst (cs ++ ds)) := by
  rw [Option.map_map]
  exact congrArg (Option.map · answer) (funext (extendFirst_extendFirst cs ds))

theorem ne_mark_of_not_reserved (h : isReserved c = false) : c ≠ '\\' := by
  rintro rfl
  exact absurd h (by decide)

/-- There is always a first piece. -/
theorem split?_ne_nil {text : List Char} {pieces : List (List Char)}
    (h : split? separator text = some pieces) : pieces ≠ [] := by
  have hextend : ∀ (cs : List Char) (answer : Option (List (List Char))),
      answer.map (extendFirst cs) = some pieces → pieces ≠ [] := by
    intro cs answer h
    obtain ⟨found, _, rfl⟩ := Option.map_eq_some_iff.1 h
    cases found <;> simp [extendFirst]
  cases text with
  | nil =>
    obtain rfl := Option.some.inj (show some [[]] = some pieces from h)
    simp
  | cons c rest =>
    by_cases hmark : c = '\\'
    · subst hmark
      cases rest with
      | nil => simp [split?] at h
      | cons d rest =>
        rw [split?_mark] at h
        exact hextend _ _ h
    · rw [split?_of_ne_mark hmark] at h
      split at h
      · obtain ⟨found, _, rfl⟩ := Option.map_eq_some_iff.1 h
        simp
      · exact hextend _ _ h

/-- An escaped name has no place to split at. -/
theorem split?_escape_append (hs : isReserved separator = true) (cs rest : List Char) :
    split? separator (escape cs ++ rest) =
      (split? separator rest).map (extendFirst (escape cs)) := by
  induction cs with
  | nil =>
    cases hsplit : split? separator rest with
    | none => simp [escape, hsplit]
    | some pieces =>
      cases pieces with
      | nil => exact absurd rfl (split?_ne_nil hsplit)
      | cons piece pieces => simp [escape, hsplit, extendFirst]
  | cons c cs ih =>
    by_cases hc : isReserved c = true
    · have hescape : escape (c :: cs) = '\\' :: c :: escape cs := by simp [escape, hc]
      rw [hescape, List.cons_append, List.cons_append, split?_mark, ih, map_extendFirst_map]
      rfl
    · have hescape : escape (c :: cs) = c :: escape cs := by simp [escape, hc]
      have hne : c ≠ separator := by
        rintro rfl
        exact hc hs
      rw [hescape, List.cons_append, split?_of_ne_mark (ne_mark_of_not_reserved (by simpa using hc)),
        if_neg hne, ih, map_extendFirst_map]
      rfl

theorem split?_escape (hs : isReserved separator = true) (cs : List Char) :
    split? separator (escape cs) = some [escape cs] := by
  have h := split?_escape_append hs cs []
  simpa [split?, extendFirst] using h

/-- Joined names come apart at the separators that joined them. -/
theorem split?_intercalate (hs : isReserved separator = true) (hne : separator ≠ '\\')
    {names : List (List Char)} (hnames : names ≠ []) :
    split? separator ([separator].intercalate (names.map escape)) = some (names.map escape) := by
  induction names with
  | nil => exact absurd rfl hnames
  | cons cs names ih =>
    cases names with
    | nil => simpa using split?_escape hs cs
    | cons ds names =>
      have hrest := ih (by simp)
      simp only [List.map_cons] at hrest ⊢
      rw [List.intercalate_cons_cons, List.append_assoc, split?_escape_append hs,
        List.singleton_append, split?_of_ne_mark hne, if_pos rfl, hrest]
      simp [extendFirst]

/-- Names that are joined by another separator have no place to split at. -/
theorem split?_joined_append (hs : isReserved separator = true) {other : Char} (hmark : other ≠ '\\')
    (hother : other ≠ separator) {names : List (List Char)} (hnames : names ≠ []) (rest : List Char) :
    split? separator ([other].intercalate (names.map escape) ++ rest) =
      (split? separator rest).map (extendFirst ([other].intercalate (names.map escape))) := by
  induction names with
  | nil => exact absurd rfl hnames
  | cons cs names ih =>
    cases names with
    | nil => simpa using split?_escape_append hs cs rest
    | cons ds names =>
      have hrest := ih (by simp)
      simp only [List.map_cons] at hrest ⊢
      rw [List.intercalate_cons_cons, List.append_assoc, List.append_assoc, split?_escape_append hs,
        List.singleton_append, split?_of_ne_mark hmark, if_neg hother, hrest, map_extendFirst_map,
        map_extendFirst_map]

theorem intercalate_extendFirst (cs : List Char) {pieces : List (List Char)} (h : pieces ≠ []) :
    [separator].intercalate (extendFirst cs pieces) = cs ++ [separator].intercalate pieces := by
  cases pieces with
  | nil => exact absurd rfl h
  | cons piece rest => cases rest <;> simp [extendFirst, List.intercalate_cons_cons]

/-- The pieces of a text, joined again, are the text. -/
theorem intercalate_of_split? {text : List Char} {pieces : List (List Char)}
    (h : split? separator text = some pieces) : [separator].intercalate pieces = text := by
  fun_induction split? separator text generalizing pieces with
  | case1 =>
    obtain rfl := Option.some.inj h
    rfl
  | case2 => cases h
  | case3 c rest ih =>
    obtain ⟨found, hfound, rfl⟩ := Option.map_eq_some_iff.1 h
    rw [intercalate_extendFirst _ (split?_ne_nil hfound), ih hfound]
    rfl
  | case4 rest _ _ ih =>
    obtain ⟨found, hfound, rfl⟩ := Option.map_eq_some_iff.1 h
    obtain ⟨piece, others, rfl⟩ := List.exists_cons_of_ne_nil (split?_ne_nil hfound)
    rw [List.intercalate_cons_cons, ih hfound]
    rfl
  | case5 c rest _ _ _ ih =>
    obtain ⟨found, hfound, rfl⟩ := Option.map_eq_some_iff.1 h
    rw [intercalate_extendFirst _ (split?_ne_nil hfound), ih hfound]
    rfl

/-! ## Names -/

/-- There is one way to escape a name. -/
theorem eq_escape_of_unescape? {text cs : List Char} (h : unescape? text = some cs) :
    text = escape cs := by
  fun_induction unescape? text generalizing cs with
  | case1 =>
    obtain rfl := Option.some.inj h
    rfl
  | case2 => cases h
  | case3 c rest hc ih =>
    obtain ⟨read, hread, rfl⟩ := Option.map_eq_some_iff.1 h
    rw [ih hread]
    simp [escape, hc]
  | case4 => cases h
  | case5 => cases h
  | case6 c rest _ _ hc ih =>
    obtain ⟨read, hread, rfl⟩ := Option.map_eq_some_iff.1 h
    rw [ih hread]
    simp [escape, hc]

theorem escape_injective {cs ds : List Char} (h : escape cs = escape ds) : cs = ds := by
  have hread := unescape?_escape cs
  rw [h, unescape?_escape] at hread
  exact (Option.some.inj hread).symm

theorem name?_eq_some_iff {raw : List Char} {name : String} :
    name? raw = some name ↔ name ≠ "" ∧ raw = escape name.toList := by
  constructor
  · intro h
    simp only [name?] at h
    split at h
    next c cs hread =>
      obtain rfl := Option.some.inj h
      refine ⟨fun hempty => ?_, ?_⟩
      · exact absurd (String.ofList_eq_empty_iff.1 hempty) (List.cons_ne_nil c cs)
      · rw [String.toList_ofList]
        exact eq_escape_of_unescape? hread
    · cases h
  · rintro ⟨hne, rfl⟩
    rw [name?, unescape?_escape]
    cases hn : name.toList with
    | nil => exact absurd (String.toList_eq_nil_iff.1 hn) hne
    | cons c cs => exact congrArg some (by rw [← hn, String.ofList_toList])

theorem mapM_name?_eq_some_iff {pieces : List (List Char)} {names : List String} :
    pieces.mapM name? = some names ↔
      (∀ n ∈ names, n ≠ "") ∧ pieces = (names.map String.toList).map escape := by
  induction pieces generalizing names with
  | nil => cases names <;> simp
  | cons piece rest ih =>
    simp only [List.mapM_cons, Option.bind_eq_bind, Option.bind_eq_some_iff, Option.pure_def,
      Option.some.injEq, name?_eq_some_iff, ih]
    constructor
    · rintro ⟨name, ⟨hname, rfl⟩, names, ⟨hnames, rfl⟩, rfl⟩
      exact ⟨List.forall_mem_cons.2 ⟨hname, hnames⟩, rfl⟩
    · cases names with
      | nil => simp
      | cons name names =>
        rintro ⟨hall, heq⟩
        obtain ⟨hname, hnames⟩ := List.forall_mem_cons.1 hall
        obtain ⟨rfl, rfl⟩ := List.cons.inj heq
        exact ⟨name, ⟨hname, rfl⟩, names, ⟨hnames, rfl⟩, rfl⟩

/-- Names as they are joined in a text. -/
def joined (names : List String) : String := ".".intercalate (names.map escaped)

theorem toList_joined (names : List String) :
    (joined names).toList = ['.'].intercalate ((names.map String.toList).map escape) := by
  simp only [joined, String.toList_intercalate, List.map_map]
  congr 1
  exact List.map_congr_left fun n _ => String.toList_ofList

theorem split?_joined {names : List String} (h : names ≠ []) :
    split? '.' (joined names).toList = some ((names.map String.toList).map escape) := by
  rw [toList_joined]
  exact split?_intercalate rfl (by decide) (by simpa using h)

/-- The joined text tells names apart, empty ones included. -/
theorem joined_injective {names others : List String} (hne : names ≠ []) (hne' : others ≠ [])
    (h : joined names = joined others) : names = others := by
  have hsplit := split?_joined hne
  rw [h, split?_joined hne'] at hsplit
  have hchars := (List.map_inj_right fun _ _ => escape_injective).1 (Option.some.inj hsplit)
  exact ((List.map_inj_right fun _ _ => String.toList_injective).1 hchars).symm

/-- The names of a dotted text are the ones that were joined. -/
theorem names?_eq_some_iff {text : String} {names : List String} : names? text.toList = some names ↔
    names ≠ [] ∧ (∀ n ∈ names, n ≠ "") ∧ joined names = text := by
  constructor
  · intro h
    simp only [names?] at h
    split at h
    next pieces hsplit =>
      obtain ⟨hall, rfl⟩ := mapM_name?_eq_some_iff.1 h
      refine ⟨?_, hall, String.toList_injective ?_⟩
      · rintro rfl
        exact split?_ne_nil hsplit rfl
      · rw [toList_joined, intercalate_of_split? hsplit]
    · cases h
  · rintro ⟨hne, hall, rfl⟩
    rw [names?, split?_joined hne]
    exact mapM_name?_eq_some_iff.2 ⟨hall, rfl⟩

/-- What is well formed can be written, and reading accepts just what is written then. -/
structure ReadsBack {α : Type} (read : String → Except ReferenceError α) (write : α → String)
    (WellFormed : α → Prop) : Prop where
  exact : ∀ text a, read text = .ok a ↔ WellFormed a ∧ write a = text
  accepted : ∀ text, (∃ a, read text = .ok a) ↔ ∃ a, WellFormed a ∧ write a = text
  read_write : ∀ a, WellFormed a → read (write a) = .ok a
  write_read : ∀ text a, read text = .ok a → write a = text
  injective : ∀ a b, WellFormed a → WellFormed b → write a = write b → a = b

theorem ReadsBack.of_exact {α : Type} {read : String → Except ReferenceError α} {write : α → String}
    {WellFormed : α → Prop}
    (h : ∀ text a, read text = .ok a ↔ WellFormed a ∧ write a = text) :
    ReadsBack read write WellFormed where
  exact := h
  accepted text := exists_congr (h text)
  read_write a ha := (h _ a).2 ⟨ha, rfl⟩
  write_read text a ha := ((h text a).1 ha).2
  injective a b ha hb hab := by
    have hread := (h _ a).2 ⟨ha, hab⟩
    rw [(h _ b).2 ⟨hb, rfl⟩] at hread
    exact (Except.ok.inj hread).symm

end ReferenceText

open ReferenceText

/-! ## Spaces -/

namespace Space

variable {s : Space}

theorem isWellFormed_iff : s.isWellFormed = true ↔ s.segments ≠ [] ∧ ∀ n ∈ s.segments, n ≠ "" := by
  simp [isWellFormed]

theorem ofSegments_eq_ok_iff {segments : List String} :
    ofSegments segments = .ok s ↔ s.isWellFormed = true ∧ s.segments = segments := by
  simp only [ofSegments]
  split
  next h =>
    rw [Except.ok.injEq]
    constructor
    · rintro rfl
      exact ⟨h, rfl⟩
    · rintro ⟨_, rfl⟩
      rfl
  next h =>
    refine iff_of_false (by simp) ?_
    rintro ⟨hs, rfl⟩
    exact h hs

theorem ofText_eq_ok_iff {text : String} :
    Space.ofText text = .ok s ↔ s.isWellFormed = true ∧ s.text = text := by
  constructor
  · intro h
    simp only [Space.ofText] at h
    split at h
    next segments hnames =>
      obtain ⟨hs, rfl⟩ := ofSegments_eq_ok_iff.1 h
      exact ⟨hs, (names?_eq_some_iff.1 hnames).2.2⟩
    · cases h
  · rintro ⟨hs, htext⟩
    obtain ⟨hne, hall⟩ := isWellFormed_iff.1 hs
    rw [Space.ofText, names?_eq_some_iff.2 ⟨hne, hall, htext⟩]
    exact ofSegments_eq_ok_iff.2 ⟨hs, rfl⟩

/-- A well-formed space is read back from its text. -/
theorem ofText_text (h : s.isWellFormed = true) : Space.ofText s.text = .ok s :=
  ofText_eq_ok_iff.2 ⟨h, rfl⟩

/-- Well-formed spaces have different texts. -/
theorem eq_of_text_eq {t : Space} (hs : s.isWellFormed = true) (ht : t.isWellFormed = true)
    (h : s.text = t.text) : s = t := by
  have hread := ofText_text hs
  rw [h, ofText_text ht] at hread
  exact (Except.ok.inj hread).symm

end Space

/-! ## Pages -/

namespace Page

variable {p q : Page} {text : String}

/-- The names in the text of a page, the name of the page last. -/
def names (p : Page) : List String := (p.space.map Space.segments).getD [] ++ [p.name]

theorem names_ne_nil (p : Page) : p.names ≠ [] := by simp [names]

theorem isWellFormed_iff :
    p.isWellFormed = true ↔ p.space ≠ some ⟨[]⟩ ∧ ∀ n ∈ p.names, n ≠ "" := by
  obtain ⟨space, name⟩ := p
  cases space with
  | none => simp [isWellFormed, names]
  | some space =>
    obtain ⟨segments⟩ := space
    simp only [isWellFormed, names, Bool.and_eq_true, bne_iff_ne, Option.all_some, Option.map_some,
      Option.getD_some, List.forall_mem_append, List.forall_mem_singleton, Space.isWellFormed_iff,
      Ne, Option.some.injEq, Space.mk.injEq]
    exact ⟨fun h => ⟨h.2.1, h.2.2, h.1⟩, fun h => ⟨h.2.2, h.1, h.2.1⟩⟩

/-- A page is known from its names, unless its space has none. -/
theorem eq_of_names (hp : p.space ≠ some ⟨[]⟩) (hq : q.space ≠ some ⟨[]⟩) (h : p.names = q.names) :
    p = q := by
  obtain ⟨space, name⟩ := p
  obtain ⟨space', name'⟩ := q
  obtain ⟨hsegments, hname⟩ := List.append_inj' h rfl
  obtain rfl := (List.cons.inj hname).1
  cases space with
  | none =>
    cases space' with
    | none => rfl
    | some space' => exact absurd (congrArg (fun l => some (Space.mk l)) hsegments.symm) hq
  | some space =>
    cases space' with
    | none => exact absurd (congrArg (fun l => some (Space.mk l)) hsegments) hp
    | some space' =>
      obtain rfl : space = space' := congrArg Space.mk hsegments
      rfl

theorem text_inSpace {space : Space} (h : space.segments ≠ []) (name : String) :
    (inSpace name space).text = joined (space.segments ++ [name]) := by
  obtain ⟨segments⟩ := space
  simp only [inSpace, text, Space.text, joined]
  induction segments with
  | nil => exact absurd rfl h
  | cons a rest ih =>
    cases rest with
    | nil => simp [String.intercalate_cons_cons]
    | cons b rest =>
      have hrest := ih (by simp)
      simp only [List.map_cons, List.cons_append, String.intercalate_cons_cons, String.append_assoc]
        at hrest ⊢
      rw [← hrest]

theorem text_eq (h : p.space ≠ some ⟨[]⟩) : p.text = joined p.names := by
  obtain ⟨space, name⟩ := p
  cases space with
  | none => simp [text, names, joined]
  | some space =>
    refine text_inSpace (fun hnil => h ?_) name
    exact congrArg (fun l => some (Space.mk l)) hnil

/-- The last name of a dotted text is the name of the page. -/
theorem ofText_of_names {segments : List String} {name : String}
    (h : names? text.toList = some (segments ++ [name])) :
    Page.ofText text =
      if segments = [] then .ok (relative name)
      else (Space.ofSegments segments).map (inSpace name) := by
  cases segments with
  | nil => simp [ofText, h]
  | cons a rest =>
    have hlast : (a :: rest ++ [name]).getLast? = some name := List.getLast?_concat
    have hdrop : (a :: rest ++ [name]).dropLast = a :: rest := List.dropLast_concat
    simp only [ofText, h, hlast, hdrop, if_neg (List.cons_ne_nil a rest)]

theorem names_of_ofText (h : Page.ofText text = .ok p) :
    p.space ≠ some ⟨[]⟩ ∧ names? text.toList = some p.names := by
  cases hnames : names? text.toList with
  | none => simp [ofText, hnames] at h
  | some found =>
    obtain ⟨hne, _⟩ := names?_eq_some_iff.1 hnames
    obtain ⟨segments, name, rfl⟩ : ∃ segments name, found = segments ++ [name] :=
      ⟨_, _, (List.dropLast_concat_getLast hne).symm⟩
    rw [ofText_of_names hnames] at h
    split at h
    next hnil =>
      obtain rfl := Except.ok.inj h
      subst hnil
      exact ⟨by simp [relative], rfl⟩
    next hsome =>
      cases hspace : Space.ofSegments segments with
      | error e => simp [hspace, Except.map] at h
      | ok space =>
        obtain ⟨_, rfl⟩ := Space.ofSegments_eq_ok_iff.1 hspace
        obtain rfl : inSpace name space = p := by simpa [hspace, Except.map] using h
        refine ⟨fun hnil => hsome ?_, rfl⟩
        exact congrArg Space.segments (Option.some.inj hnil)

theorem ofText_of_wellFormed (h : p.isWellFormed = true) (hnames : names? text.toList = some p.names) :
    Page.ofText text = .ok p := by
  obtain ⟨space, name⟩ := p
  rw [ofText_of_names hnames]
  cases space with
  | none => rfl
  | some space =>
    have hspace : space.isWellFormed = true := by
      simp only [isWellFormed, Bool.and_eq_true] at h
      exact h.2
    have hne : ¬((some space).map Space.segments).getD [] = [] := (Space.isWellFormed_iff.1 hspace).1
    have hread : Space.ofSegments space.segments = .ok space :=
      Space.ofSegments_eq_ok_iff.2 ⟨hspace, rfl⟩
    rw [if_neg hne, Option.map_some, Option.getD_some, hread]
    rfl

theorem ofText_eq_ok_iff : Page.ofText text = .ok p ↔ p.isWellFormed = true ∧ p.text = text := by
  constructor
  · intro h
    obtain ⟨hspace, hnames⟩ := names_of_ofText h
    obtain ⟨_, hall, htext⟩ := names?_eq_some_iff.1 hnames
    exact ⟨isWellFormed_iff.2 ⟨hspace, hall⟩, (text_eq hspace).trans htext⟩
  · rintro ⟨hp, rfl⟩
    obtain ⟨hspace, hall⟩ := isWellFormed_iff.1 hp
    exact ofText_of_wellFormed hp
      (names?_eq_some_iff.2 ⟨p.names_ne_nil, hall, (text_eq hspace).symm⟩)

/-- A well-formed page is read back from its text. -/
theorem ofText_text (h : p.isWellFormed = true) : Page.ofText p.text = .ok p :=
  ofText_eq_ok_iff.2 ⟨h, rfl⟩

/-- No other page has the text of a well-formed page, not even one that is not well formed. -/
theorem eq_of_text_eq (hq : q.isWellFormed = true) (h : p.text = q.text) : p = q := by
  obtain ⟨hspace, hall⟩ := isWellFormed_iff.1 hq
  by_cases hp : p.space = some ⟨[]⟩
  -- The text begins with a separator then, as if the first name were empty.
  · have htext : p.text = joined ["", p.name] := by
      simp [text, hp, Space.text, joined, String.intercalate_cons_cons, escaped, escape]
    have hnames : ["", p.name] = q.names :=
      joined_injective (by simp) q.names_ne_nil (htext.symm.trans (h.trans (text_eq hspace)))
    exact absurd rfl (hall "" (hnames ▸ .head _))
  · refine eq_of_names hp hspace (joined_injective p.names_ne_nil q.names_ne_nil ?_)
    rw [← text_eq hp, ← text_eq hspace, h]

end Page

/-! ## Attachments -/

namespace Attachment

variable {a : Attachment} {text : String}

/-- The separator of the file is the only one without a mark in the text of an attachment. -/
theorem split?_text (h : a.page.isWellFormed = true) :
    split? '@' a.text.toList = some [a.page.text.toList, escape a.file.toList] := by
  have hpage : a.page.text.toList = ['.'].intercalate ((a.page.names.map String.toList).map escape) := by
    rw [Page.text_eq (Page.isWellFormed_iff.1 h).1, toList_joined]
  have hne : a.page.names.map String.toList ≠ [] := by simp [Page.names]
  have hchars : a.text.toList = a.page.text.toList ++ '@' :: escape a.file.toList := by
    simp [Attachment.text, escaped]
  rw [hchars, hpage, split?_joined_append rfl (by decide) (by decide) hne,
    split?_of_ne_mark (by decide), if_pos rfl, split?_escape rfl]
  simp [extendFirst]

theorem ofText_eq_ok_iff :
    Attachment.ofText text = .ok a ↔ (a.page.isWellFormed = true ∧ a.file ≠ "") ∧ a.text = text := by
  constructor
  · intro h
    simp only [Attachment.ofText] at h
    split at h
    next page file hsplit =>
      split at h
      · cases h
      · cases h
      next found name hpage hname =>
        obtain rfl := Except.ok.inj h
        obtain ⟨hwell, htext⟩ := Page.ofText_eq_ok_iff.1 hpage
        obtain ⟨hfile, rfl⟩ := name?_eq_some_iff.1 hname
        refine ⟨⟨hwell, hfile⟩, String.toList_injective ?_⟩
        rw [← intercalate_of_split? hsplit]
        simp [Attachment.text, htext, escaped, List.intercalate_cons_cons]
    · cases h
  · rintro ⟨⟨hpage, hfile⟩, rfl⟩
    have hname : name? (escape a.file.toList) = some a.file := name?_eq_some_iff.2 ⟨hfile, rfl⟩
    simp only [Attachment.ofText, split?_text hpage, String.ofList_toList, Page.ofText_text hpage, hname]

end Attachment

/-- Spaces, pages and attachments that are well formed have one text each, and no other text is
accepted. -/
theorem references_read_back :
    ReadsBack Space.ofText Space.text (fun s => s.isWellFormed = true) ∧
      ReadsBack Page.ofText Page.text (fun p => p.isWellFormed = true) ∧
      ReadsBack Attachment.ofText Attachment.text
        (fun a => a.page.isWellFormed = true ∧ a.file ≠ "") :=
  ⟨.of_exact fun _ _ => Space.ofText_eq_ok_iff, .of_exact fun _ _ => Page.ofText_eq_ok_iff,
    .of_exact fun _ _ => Attachment.ofText_eq_ok_iff⟩

end WikiMount
