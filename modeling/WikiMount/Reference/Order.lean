import WikiMount.Reference.Basic

/-! # The order of references
Spaces are ordered by their segments; pages by space, a relative page first, and then by name;
attachments by page and then by file name. Text is compared by code point. The orders are lawful,
so references can be the keys of a sorted map. -/

namespace WikiMount

instance : Ord Space := ⟨compareOn Space.segments⟩

instance : Ord Page := ⟨compareLex (compareOn Page.space) (compareOn Page.name)⟩

instance : Ord Attachment := ⟨compareLex (compareOn Attachment.page) (compareOn Attachment.file)⟩

instance : Std.TransOrd Space := inferInstanceAs (Std.TransCmp (compareOn Space.segments))

instance : Std.LawfulEqOrd Space where
  eq_of_compare {a b} h := by
    cases a; cases b
    exact congrArg Space.mk (Std.LawfulEqCmp.eq_of_compare (show compare _ _ = _ from h))

instance : Std.TransOrd Page :=
  inferInstanceAs (Std.TransCmp (compareLex (compareOn Page.space) (compareOn Page.name)))

instance : Std.LawfulEqOrd Page where
  eq_of_compare {a b} h := by
    obtain ⟨hs, hn⟩ := Ordering.then_eq_eq.1 (show (compare a.space b.space).then
      (compare a.name b.name) = _ from h)
    cases a; cases b
    exact congr (congrArg Page.mk (Std.LawfulEqCmp.eq_of_compare hs))
      (Std.LawfulEqCmp.eq_of_compare hn)

instance : Std.TransOrd Attachment :=
  inferInstanceAs (Std.TransCmp (compareLex (compareOn Attachment.page) (compareOn Attachment.file)))

instance : Std.LawfulEqOrd Attachment where
  eq_of_compare {a b} h := by
    obtain ⟨hp, hf⟩ := Ordering.then_eq_eq.1 (show (compare a.page b.page).then
      (compare a.file b.file) = _ from h)
    cases a; cases b
    exact congr (congrArg Attachment.mk (Std.LawfulEqCmp.eq_of_compare hp))
      (Std.LawfulEqCmp.eq_of_compare hf)

end WikiMount
