import WikiMount.Text.Uppercase

/-!
# Uppercase text stays uppercase

No character that stands in an uppercase form has an uppercase form other than itself. For the case
runs this is a question of intervals: the letters that a run leads to lie outside every run, or on the
other side of an alternation of cases. So a text in uppercase is a fixed point. A character that no run
leads to and that no long form contains stands in no uppercase form but its own.
-/

namespace WikiMount

namespace Text

namespace CaseRun

/-- The first uppercase letter that a run leads to. -/
def imageFirst (r : CaseRun) : Nat := (r.first + r.shift).toNat

/-- The last uppercase letter that a run leads to. -/
def imageLast (r : CaseRun) : Nat := (r.last + r.shift).toNat

/-- The letters that `r` leads to are not covered by `r'`: they lie before or after it, it is a single
letter between them, or they alternate with it. -/
def misses (r r' : CaseRun) : Bool :=
  Nat.blt r.imageLast r'.first || Nat.blt r'.last r.imageFirst ||
    (Nat.beq r'.first r'.last && Nat.ble r.imageFirst r'.first &&
      Nat.beq ((r'.first - r.imageFirst) % r.step) 1) ||
    (Nat.beq r'.step 2 && Nat.beq ((r.imageFirst + r'.first) % 2) 1 &&
      (Nat.beq r.step 2 || Nat.beq r.first r.last))

variable {r r' : CaseRun} {code : Nat}

theorem covers_iff :
    r.covers code = true ↔ r.first ≤ code ∧ code ≤ r.last ∧ (code - r.first) % r.step = 0 := by
  simp [covers, and_assoc]

/-- A covered letter leads to one of the letters between the first and the last. -/
theorem image_bounds (h : r.covers code = true) (hpos : 0 ≤ r.first + r.shift) :
    r.imageFirst ≤ (code + r.shift).toNat ∧ (code + r.shift).toNat ≤ r.imageLast ∧
      (code + r.shift).toNat - r.imageFirst = code - r.first := by
  obtain ⟨hfirst, hlast, _⟩ := covers_iff.1 h
  simp only [imageFirst, imageLast]
  omega

theorem not_covers_image (h : r.covers code = true) (hpos : 0 ≤ r.first + r.shift)
    (hr : r.misses r' = true) : r'.covers (code + r.shift).toNat = false := by
  obtain ⟨hfirst, hlast, hdiff⟩ := image_bounds h hpos
  obtain ⟨hlow, hhigh, hstep⟩ := covers_iff.1 h
  rw [Bool.eq_false_iff, Ne, covers_iff]
  rintro ⟨hlow', hhigh', hstep'⟩
  simp only [misses, Bool.or_eq_true, Bool.and_eq_true, Nat.blt_eq, Nat.beq_eq, Nat.ble_eq] at hr
  rcases hr with ((hbefore | hafter) | ⟨⟨hone, _⟩, hodd⟩) | ⟨⟨htwo, hodd⟩, halternate⟩
  · omega
  · omega
  · have hcode : (code + r.shift).toNat = r'.first := by omega
    rw [← hdiff, hcode] at hstep
    omega
  · rw [htwo] at hstep'
    rcases halternate with htwo | hone
    · rw [htwo] at hstep
      omega
    · omega

end CaseRun

/-! ## Codes -/

/-- A code point that is its own uppercase form. -/
def IsUpper (code : Nat) : Prop := upperCodes code = [code]

theorem runs_miss : ∀ r ∈ caseRuns, ∀ r' ∈ caseRuns, r.misses r' = true := by
  have h : (caseRuns.all fun r => caseRuns.all r.misses) = true := by decide +kernel
  simpa only [List.all_eq_true] using h

/-- The letters that a run leads to are characters, and none of them has a long form. -/
def CaseRun.leadsToLetters (r : CaseRun) : Bool :=
  decide (0 ≤ r.first + r.shift) &&
    (Nat.blt r.imageLast 0xd800 || Nat.blt 0xdfff r.imageFirst && Nat.blt r.imageLast 0x110000) &&
    longUppercase.all fun e => Nat.blt e.1 r.imageFirst || Nat.blt r.imageLast e.1

theorem runs_lead_to_letters : ∀ r ∈ caseRuns, r.leadsToLetters = true := by
  have h : caseRuns.all CaseRun.leadsToLetters = true := by decide +kernel
  exact List.all_eq_true.1 h

theorem CaseRun.leadsToLetters_spec {r : CaseRun} (h : r.leadsToLetters = true) :
    0 ≤ r.first + r.shift ∧
      (r.imageLast < 0xd800 ∨ 0xdfff < r.imageFirst ∧ r.imageLast < 0x110000) ∧
      ∀ e ∈ longUppercase, e.1 < r.imageFirst ∨ r.imageLast < e.1 := by
  obtain ⟨hchars, hlong⟩ := Bool.and_eq_true_iff.1 h
  obtain ⟨hpos, hvalid⟩ := Bool.and_eq_true_iff.1 hchars
  refine ⟨of_decide_eq_true hpos, ?_, fun e he => ?_⟩
  · simpa only [Bool.or_eq_true, Bool.and_eq_true, Nat.blt_eq] using hvalid
  · have hclear := List.all_eq_true.1 hlong e he
    simpa only [Bool.or_eq_true, Nat.blt_eq] using hclear

theorem long_forms_upper : ∀ e ∈ longUppercase, e.2 ≠ [] ∧
    ∀ code ∈ e.2, code < 0xd800 ∧ upperCodes code = [code] := by
  have h : (longUppercase.all fun e => !e.2.isEmpty &&
      e.2.all fun code => Nat.blt code 0xd800 && upperCodes code == [code]) = true := by
    decide +kernel
  simpa only [List.all_eq_true, Bool.and_eq_true, Bool.not_eq_true', List.isEmpty_eq_false_iff,
    Nat.blt_eq, beq_iff_eq] using h

theorem lookup_eq_none {β : Type} {l : List (Nat × β)} {code : Nat} (h : ∀ e ∈ l, e.1 ≠ code) :
    l.lookup code = none := by
  refine List.lookup_eq_none_iff.2 fun e he => ?_
  simpa using (h e he).symm

theorem isUpper_of_uncovered {code : Nat} (hruns : ∀ r ∈ caseRuns, r.covers code = false)
    (hlong : ∀ e ∈ longUppercase, e.1 ≠ code) : IsUpper code := by
  have hnone : caseRuns.find? (·.covers code) = none := by
    simpa [List.find?_eq_none] using hruns
  simp only [IsUpper, upperCodes, hnone, lookup_eq_none hlong, Option.getD_none]

/-- An uppercase form is a letter that a case run leads to, a long form, or the character itself. -/
theorem upperCodes_cases (code : Nat) :
    (∃ r ∈ caseRuns, r.covers code = true ∧ upperCodes code = [(code + r.shift).toNat]) ∨
      (code, upperCodes code) ∈ longUppercase ∨ IsUpper code := by
  cases hrun : caseRuns.find? (·.covers code) with
  | some r =>
    have hcovers : r.covers code = true := by simpa using List.find?_some hrun
    exact .inl ⟨r, List.mem_of_find?_eq_some hrun, hcovers, by simp only [upperCodes, hrun]⟩
  | none =>
    cases hlookup : longUppercase.lookup code with
    | some form =>
      obtain ⟨l, l', hl, _⟩ := List.lookup_eq_some_iff.1 hlookup
      have hform : upperCodes code = form := by
        simp only [upperCodes, hrun, hlookup, Option.getD_some]
      exact .inr (.inl (by simp [hform, hl]))
    | none => exact .inr (.inr (by simp only [IsUpper, upperCodes, hrun, hlookup, Option.getD_none]))

/-- What an uppercase form consists of is in uppercase, and it is not empty. -/
theorem upperCodes_spec {code : Nat} (hcode : code.isValidChar) :
    upperCodes code ≠ [] ∧ ∀ u ∈ upperCodes code, u.isValidChar ∧ IsUpper u := by
  rcases upperCodes_cases code with ⟨r, hr, hcovers, hcodes⟩ | hform | hupper
  · obtain ⟨hpos, hvalid, hlong⟩ := CaseRun.leadsToLetters_spec (runs_lead_to_letters r hr)
    obtain ⟨hfirst, hlast, _⟩ := r.image_bounds hcovers hpos
    rw [hcodes]
    refine ⟨by simp, fun u hu => ?_⟩
    obtain rfl := List.mem_singleton.1 hu
    refine ⟨?_, isUpper_of_uncovered (fun r' hr' => ?_) (fun e he => ?_)⟩
    · simp only [Nat.isValidChar]
      omega
    · exact CaseRun.not_covers_image hcovers hpos (runs_miss r hr r' hr')
    · have := hlong e he
      omega
  · obtain ⟨hne, hupper⟩ := long_forms_upper _ hform
    exact ⟨hne, fun u hu => ⟨.inl (hupper u hu).1, (hupper u hu).2⟩⟩
  · rw [hupper]
    refine ⟨by simp, fun u hu => ?_⟩
    obtain rfl := List.mem_singleton.1 hu
    exact ⟨hcode, hupper⟩

/-- No case run leads to the code point, and no long form contains it. -/
def isUnreached (code : Nat) : Bool :=
  (caseRuns.all fun r => Nat.blt code r.imageFirst || Nat.blt r.imageLast code) &&
    longUppercase.all fun e => !e.2.contains code

/-- A code point that nothing leads to is in no uppercase form but its own. -/
theorem eq_of_mem_upperCodes {code u : Nat} (hu : isUnreached u = true) (h : u ∈ upperCodes code) :
    u = code := by
  obtain ⟨hruns, hforms⟩ := Bool.and_eq_true_iff.1 hu
  rcases upperCodes_cases code with ⟨r, hr, hcovers, hcodes⟩ | hform | hupper
  · obtain ⟨hpos, _⟩ := CaseRun.leadsToLetters_spec (runs_lead_to_letters r hr)
    obtain ⟨hfirst, hlast, _⟩ := r.image_bounds hcovers hpos
    rw [hcodes, List.mem_singleton] at h
    have houtside := List.all_eq_true.1 hruns r hr
    simp only [Bool.or_eq_true, Nat.blt_eq] at houtside
    omega
  · have hmissing := List.all_eq_true.1 hforms _ hform
    simp [h] at hmissing
  · rw [hupper] at h
    exact List.mem_singleton.1 h

/-! ## Text -/

theorem toNat_ofNat {u : Nat} (hvalid : u.isValidChar) : (Char.ofNat u).toNat = u := by
  rw [Char.ofNat, dif_pos hvalid]
  rfl

theorem upperChar_ne_nil (c : Char) : upperChar c ≠ [] := by
  have hne := (upperCodes_spec c.valid).1
  simpa [upperChar] using hne

theorem upperChar_of_isUpper {u : Nat} (hvalid : u.isValidChar) (hu : IsUpper u) :
    upperChar (Char.ofNat u) = [Char.ofNat u] := by
  rw [upperChar, toNat_ofNat hvalid, hu, List.map_singleton]

theorem eq_of_mem_upperChar {c d : Char} (hd : isUnreached d.toNat = true) (h : d ∈ upperChar c) :
    d = c := by
  obtain ⟨u, hu, rfl⟩ := List.mem_map.1 h
  rw [toNat_ofNat ((upperCodes_spec c.valid).2 u hu).1] at hd
  rw [eq_of_mem_upperCodes hd hu, Char.ofNat_toNat]

theorem upperChars_upperChar (c : Char) : upperChars (upperChar c) = upperChar c := by
  have hupper := (upperCodes_spec c.valid).2
  have hsingle : ∀ d ∈ upperChar c, upperChar d = [d] := by
    intro d hd
    obtain ⟨u, hu, rfl⟩ := List.mem_map.1 hd
    exact upperChar_of_isUpper (hupper u hu).1 (hupper u hu).2
  calc (upperChar c).flatMap upperChar
      = ((upperChar c).map fun d => [d]).flatten := by
        rw [List.flatMap_def, List.map_congr_left hsingle]
    _ = upperChar c := List.flatMap_singleton' _

/-- A text in uppercase has no other uppercase form. -/
@[simp] theorem upperChars_upperChars (cs : List Char) : upperChars (upperChars cs) = upperChars cs := by
  induction cs with
  | nil => rfl
  | cons c cs ih =>
    have hcons : upperChars (c :: cs) = upperChar c ++ upperChars cs := rfl
    rw [hcons, upperChars_append, upperChars_upperChar, ih]

@[simp] theorem uppercase_ofList_upperChars (cs : List Char) :
    uppercase (String.ofList (upperChars cs)) = String.ofList (upperChars cs) := by
  rw [uppercase, String.toList_ofList, upperChars_upperChars]

theorem upperChars_eq_nil {cs : List Char} : upperChars cs = [] ↔ cs = [] := by
  cases cs with
  | nil => simp [upperChars]
  | cons c cs => simp [upperChars, upperChar_ne_nil]

end Text

end WikiMount
