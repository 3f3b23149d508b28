import Mathlib.Data.List.Basic
import WikiMount.Export
import WikiMount.Proofs.Reference.ReadBack

/-!
# Reading an export back

A value stands between an opening and a closing tag, and every character of it that markup gives a meaning
is written as an entity. No value holds the beginning of a tag then, so whoever reads up to the next closing
tag and undoes the entities has the value, whatever it was. References are read back from their texts, and
an absent parent is an empty text, which no page has. So an export tells everything about a document but
whether it was ever saved.
-/

namespace WikiMount

namespace Export

/-! ## Entities -/

/-- Undoes the five entities; everything else stands for itself. -/
def unescape : List Char → List Char
  | '&' :: 'a' :: 'm' :: 'p' :: ';' :: rest => '&' :: unescape rest
  | '&' :: 'l' :: 't' :: ';' :: rest => '<' :: unescape rest
  | '&' :: 'g' :: 't' :: ';' :: rest => '>' :: unescape rest
  | '&' :: 'q' :: 'u' :: 'o' :: 't' :: ';' :: rest => '"' :: unescape rest
  | '&' :: 'a' :: 'p' :: 'o' :: 's' :: ';' :: rest => '\'' :: unescape rest
  | c :: rest => c :: unescape rest
  | [] => []

theorem unescape_cons {c : Char} (h : c ≠ '&') (rest : List Char) :
    unescape (c :: rest) = c :: unescape rest := by
  rw [unescape]
  all_goals simp_all

theorem unescape_escapeChar_append (c : Char) (rest : List Char) :
    unescape (escapeChar c ++ rest) = c :: unescape rest := by
  unfold escapeChar
  split
  next => rfl
  next => rfl
  next => rfl
  next => rfl
  next => rfl
  next hamp _ _ _ _ => exact unescape_cons hamp rest

/-- Escaping is undone. -/
theorem unescape_escape (s : String) : unescape (escape s).toList = s.toList := by
  rw [escape, String.toList_ofList]
  induction s.toList with
  | nil => rfl
  | cons c cs ih => rw [List.flatMap_cons, unescape_escapeChar_append, ih]

/-- An escaped value holds no beginning of a tag. -/
theorem not_mem_escape (s : String) : '<' ∉ (escape s).toList := by
  have hchar : ∀ c, '<' ∉ escapeChar c := by
    intro c
    unfold escapeChar
    split
    next => decide
    next => decide
    next => decide
    next => decide
    next => decide
    next _ hlt _ _ _ => simpa using Ne.symm hlt
  rw [escape, String.toList_ofList, List.mem_flatMap]
  rintro ⟨c, _, hc⟩
  exact hchar c hc

/-! ## Fields -/

/-- The value of the field at the beginning of a text, up to the next closing tag, and what comes after
the field. -/
def value? (name : String) (text : List Char) : Option (String × List Char) := do
  let inner ← text.dropPrefix? ("  <" ++ name ++ ">").toList
  let (raw, rest) ← inner.dropInfix? ("</" ++ name ++ ">").toList
  let rest ← rest.dropPrefix? ['\n']
  return (String.ofList (unescape raw), rest)

/-- The values of the fields at the beginning of a text, and what comes after them. -/
def values? : List String → List Char → Option (List String × List Char)
  | [], text => some ([], text)
  | name :: names, text => do
    let (value, rest) ← value? name text
    let (values, rest) ← values? names rest
    return (value :: values, rest)

theorem dropPrefix?_append (before rest : List Char) :
    (before ++ rest).dropPrefix? before = some rest :=
  List.dropPrefix?_append_of_beq rest (beq_self_eq_true before)

/-- A text is cut where a mark stands that begins with a character of its own. -/
theorem dropInfix?_append {c : Char} {raw : List Char} (h : c ∉ raw) (mark rest : List Char) :
    (raw ++ (c :: mark ++ rest)).dropInfix? (c :: mark) = some (raw, rest) := by
  refine List.dropInfix?_eq_some_iff.2 ⟨⟨c :: mark, by simp, beq_self_eq_true _⟩, ?_⟩
  intro before found after hsplit hfound
  obtain rfl := eq_of_beq hfound
  -- A mark further ahead would begin among the characters before the one that was found.
  by_contra hshorter
  rw [List.append_assoc] at hsplit
  obtain ⟨more, hraw⟩ := List.prefix_of_prefix_length_le (List.prefix_append before _)
    (hsplit ▸ List.prefix_append raw _) (by omega)
  have hmore : more ≠ [] := by
    rintro rfl
    simp [← hraw] at hshorter
  obtain ⟨d, tail, rfl⟩ := List.exists_cons_of_ne_nil hmore
  rw [← hraw, List.append_assoc] at hsplit
  obtain ⟨rfl, _⟩ := List.cons.inj (List.append_cancel_left hsplit)
  exact h (hraw ▸ List.mem_append.2 (.inr (.head _)))

/-- A field is read back, whatever comes after it. -/
theorem value?_field (name value : String) (rest : List Char) :
    value? name ((field name value).toList ++ rest) = some (value, rest) := by
  have htext : (field name value).toList ++ rest = ("  <" ++ name ++ ">").toList ++
      ((escape value).toList ++ (("</" ++ name ++ ">").toList ++ ('\n' :: rest))) := by
    simp [field]
  have hmark : ("</" ++ name ++ ">").toList = '<' :: ("/" ++ name ++ ">").toList := by
    simp
  have hcut : ((escape value).toList ++ (("</" ++ name ++ ">").toList ++ ('\n' :: rest))).dropInfix?
      ("</" ++ name ++ ">").toList = some ((escape value).toList, '\n' :: rest) := by
    rw [hmark]
    exact dropInfix?_append (not_mem_escape value) _ _
  have hline : ('\n' :: rest).dropPrefix? ['\n'] = some rest := dropPrefix?_append ['\n'] rest
  rw [value?, htext, dropPrefix?_append, Option.bind_eq_bind, Option.bind_some, hcut]
  simp only [Option.bind_eq_bind, Option.bind_some, hline, unescape_escape, String.ofList_toList]
  rfl

/-- Fields are read back one after the other. -/
theorem values?_fields (fields : List (String × String)) (rest : List Char) :
    values? (fields.map Prod.fst)
      ((String.join (fields.map fun f => field f.1 f.2)).toList ++ rest) =
      some (fields.map Prod.snd, rest) := by
  induction fields with
  | nil => simp [values?]
  | cons f fields ih =>
    have htext : (String.join ((f :: fields).map fun f => field f.1 f.2)).toList ++ rest =
        (field f.1 f.2).toList ++
          ((String.join (fields.map fun f => field f.1 f.2)).toList ++ rest) := by
      simp [String.toList_join]
    rw [List.map_cons, values?, htext, value?_field, Option.bind_eq_bind, Option.bind_some]
    dsimp only
    rw [ih]
    rfl

/-! ## Exports -/

/-- The lines before the fields. -/
def header : String := "<?xml version=\"1.0\" encoding=\"UTF-8\"?>\n<document>\n"

/-- The line after the fields. -/
def footer : String := "</document>\n"

/-- The names of the fields of every export. -/
def fieldNames : List String :=
  ["reference", "space", "name", "parent", "locale", "created", "updated", "content"]

/-- The values of the fields of an export. -/
def contents? (text : String) : Option (List String) := do
  let inner ← text.toList.dropPrefix? header.toList
  let (values, rest) ← values? fieldNames inner
  if rest = footer.toList then some values else none

theorem xml_eq (d : Document) :
    d.xml = header ++ String.join ((fields d).map fun f => field f.1 f.2) ++ footer := rfl

/-- The values of an export are those of the document, whatever they contain. -/
theorem contents?_xml (d : Document) : contents? d.xml = some ((fields d).map Prod.snd) := by
  have hnames : fieldNames = (fields d).map Prod.fst := rfl
  rw [contents?, xml_eq, String.toList_append, String.toList_append, List.append_assoc,
    dropPrefix?_append, Option.bind_eq_bind, Option.bind_some, hnames, values?_fields,
    Option.bind_eq_bind, Option.bind_some]
  exact if_pos rfl

/-- The parent that a text names; none if it is empty. -/
def parent? (text : String) : Option (Option Page) :=
  if text = "" then some none else (Page.ofText text).toOption.map some

/-- The number that a text of digits writes. -/
def number (text : String) : Nat := Nat.ofDigitChars 10 text.toList 0

@[simp] theorem number_toString (n : Nat) : number (toString n) = n := by
  rw [number, Nat.toString_eq_ofList_toDigits, String.toList_ofList, Nat.ofDigitChars_ten_toDigits]

end Export

open Export

namespace Document

/-- The document that an export was made of, as one that was saved. -/
def ofXml? (text : String) : Option Document :=
  match contents? text with
  | some [reference, _, _, parent, locale, created, updated, content] => do
    let reference ← (Page.ofText reference).toOption
    let parent ← parent? parent
    return ⟨reference, content, parent, number created, number updated, locale, false⟩
  | _ => none

/-- The reference of a document and its parent, if it has one, are well formed. -/
structure WellReferenced (d : Document) : Prop where
  reference : d.reference.isWellFormed = true
  parent : ∀ p, d.parent = some p → p.isWellFormed = true

variable {d e : Document}

theorem toOption_ofText_text {p : Page} (h : p.isWellFormed = true) :
    (Page.ofText p.text).toOption = some p := by
  rw [Page.ofText_text h]
  rfl

/-- No page that is well formed has an empty text. -/
theorem text_ne_empty {p : Page} (h : p.isWellFormed = true) : p.text ≠ "" := by
  intro hempty
  have hread := Page.ofText_text h
  rw [hempty] at hread
  cases hread

/-- An absent parent is told apart from every other. -/
theorem WellReferenced.parent?_text (h : d.WellReferenced) :
    parent? ((d.parent.map Page.text).getD "") = some d.parent := by
  cases hparent : d.parent with
  | none => rfl
  | some p =>
    have hp := h.parent p hparent
    rw [Option.map_some, Option.getD_some, parent?, if_neg (text_ne_empty hp),
      toOption_ofText_text hp]
    rfl

/-- An export is read back as the document that it was made of. -/
theorem WellReferenced.ofXml?_xml (h : d.WellReferenced) :
    ofXml? d.xml = some { d with isNew := false } := by
  have hcontents := contents?_xml d
  simp only [fields, List.map_cons, List.map_nil] at hcontents
  simp only [ofXml?, hcontents, toOption_ofText_text h.reference, h.parent?_text, number_toString,
    Option.bind_eq_bind, Option.bind_some]
  rfl

/-- An export tells everything about a document but whether it was ever saved. Each value is read back up to
the next closing tag, whatever it contains, and the document from its values; so two documents have one
export exactly if they agree in all that is exported. -/
theorem xml_recovered (hd : d.WellReferenced) (he : e.WellReferenced) :
    contents? d.xml = some ((fields d).map Prod.snd) ∧
      ofXml? d.xml = some { d with isNew := false } ∧
      (d.xml = e.xml ↔ d.reference = e.reference ∧ d.parent = e.parent ∧ d.locale = e.locale ∧
        d.createdAt = e.createdAt ∧ d.updatedAt = e.updatedAt ∧ d.content = e.content) := by
  have hread := hd.ofXml?_xml
  refine ⟨contents?_xml d, hread, ?_⟩
  constructor
  · intro h
    rw [h, he.ofXml?_xml] at hread
    have hsame := Document.mk.inj (Option.some.inj hread.symm)
    obtain ⟨hreference, hcontent, hparent, hcreated, hupdated, hlocale, _⟩ := hsame
    exact ⟨hreference, hparent, hlocale, hcreated, hupdated, hcontent⟩
  · rintro ⟨hreference, hparent, hlocale, hcreated, hupdated, hcontent⟩
    have hfields : fields d = fields e := by
      simp only [fields, hreference, hparent, hlocale, hcreated, hupdated, hcontent]
    rw [xml_eq, xml_eq, hfields]

/-- A locale that looks like the end of its field and another field is told apart from such fields. -/
theorem xml_recovered_forged :
    let page := Page.inSpace "\"A\" & B" (.topLevel "Main")
    let forged : Document := { Document.blank page with
      locale := "de</locale>\n  <created>7", content := "&amp;</content>" }
    let dated : Document := { Document.blank page with
      locale := "de", createdAt := 7, content := "&amp;</content>" }
    forged.WellReferenced ∧ dated.WellReferenced ∧
      contents? forged.xml = some ["Main.\"A\" & B", "Main", "\"A\" & B", "",
        "de</locale>\n  <created>7", "0", "0", "&amp;</content>"] ∧
      ofXml? forged.xml = some { forged with isNew := false } ∧ forged.xml ≠ dated.xml := by
  intro page forged dated
  have hpage : page.isWellFormed = true := by decide
  have hforged : forged.WellReferenced := ⟨hpage, nofun⟩
  have hdated : dated.WellReferenced := ⟨hpage, nofun⟩
  obtain ⟨hcontents, hread, hsame⟩ := xml_recovered hforged hdated
  have hvalues : (fields forged).map Prod.snd = ["Main.\"A\" & B", "Main", "\"A\" & B", "",
      "de</locale>\n  <created>7", "0", "0", "&amp;</content>"] := by decide
  refine ⟨hforged, hdated, hvalues ▸ hcontents, hread, fun h => ?_⟩
  obtain ⟨_, _, _, hcreated, _⟩ := hsame.1 h
  cases hcreated

end Document

end WikiMount
