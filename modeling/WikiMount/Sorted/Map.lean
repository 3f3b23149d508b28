/-! # Finite maps sorted by key
A map is a list of entries whose keys ascend strictly, so two maps with the same look-ups are equal
and listing a map needs no sorting. Insertion, removal and look-up walk the list once. The main
statements say what each operation does to `get?`, that the entries are the look-ups, and that the
look-ups determine the map. -/

namespace WikiMount

universe u v

/-- A finite map, kept as its entries in strictly ascending order of their keys. -/
structure SortedMap (α : Type u) (β : Type v) [Ord α] where
  entries : List (α × β)
  ascending : entries.Pairwise (fun a b => compare a.1 b.1 = .lt)

namespace SortedMap

variable {α : Type u} {β : Type v} [Ord α]

def empty : SortedMap α β := ⟨[], .nil⟩

instance : Inhabited (SortedMap α β) := ⟨empty⟩

instance [DecidableEq α] [DecidableEq β] : DecidableEq (SortedMap α β) := fun m n =>
  decidable_of_iff (m.entries = n.entries) ⟨fun h => by cases m; cases n; cases h; rfl, fun h => h ▸ rfl⟩

def keys (m : SortedMap α β) : List α := m.entries.map Prod.fst

def values (m : SortedMap α β) : List β := m.entries.map Prod.snd

def size (m : SortedMap α β) : Nat := m.entries.length

def isEmpty (m : SortedMap α β) : Bool := m.entries.isEmpty

private def lookupIn (k : α) : List (α × β) → Option β
  | [] => none
  | (k', v) :: rest => if compare k k' = .eq then some v else lookupIn k rest

/-- The value stored under a key. -/
def get? (m : SortedMap α β) (k : α) : Option β := lookupIn k m.entries

def contains (m : SortedMap α β) (k : α) : Bool := (m.get? k).isSome

private def insertIn (k : α) (v : β) : List (α × β) → List (α × β)
  | [] => [(k, v)]
  | (k', v') :: rest =>
    match compare k k' with
    | .lt => (k, v) :: (k', v') :: rest
    | .eq => (k, v) :: rest
    | .gt => (k', v') :: insertIn k v rest

private theorem mem_insertIn {k : α} {v : β} {l : List (α × β)} {e : α × β}
    (h : e ∈ insertIn k v l) : e = (k, v) ∨ e ∈ l := by
  induction l with
  | nil => simpa [insertIn] using h
  | cons a rest ih =>
    obtain ⟨k', v'⟩ := a
    unfold insertIn at h
    split at h
    · simpa using h
    · rcases List.mem_cons.1 h with h | h
      · exact .inl h
      · exact .inr (.tail _ h)
    · rcases List.mem_cons.1 h with h | h
      · exact .inr (h ▸ .head _)
      · exact (ih h).imp id (.tail _)

variable [Std.TransOrd α]

private theorem insertIn_ascending [Std.LawfulEqOrd α] {k : α} {v : β} {l : List (α × β)}
    (h : l.Pairwise (fun a b => compare a.1 b.1 = .lt)) :
    (insertIn k v l).Pairwise (fun a b => compare a.1 b.1 = .lt) := by
  induction l with
  | nil => simp [insertIn]
  | cons a rest ih =>
    obtain ⟨k', v'⟩ := a
    obtain ⟨hhead, hrest⟩ := List.pairwise_cons.1 h
    unfold insertIn
    split
    next hlt =>
      refine List.pairwise_cons.2 ⟨fun e he => ?_, h⟩
      rcases List.mem_cons.1 he with rfl | he
      · exact hlt
      · exact Std.TransCmp.lt_trans hlt (hhead e he)
    next heq =>
      obtain rfl : k = k' := Std.LawfulEqCmp.eq_of_compare heq
      exact List.pairwise_cons.2 ⟨hhead, hrest⟩
    next hgt =>
      refine List.pairwise_cons.2 ⟨fun e he => ?_, ih hrest⟩
      rcases mem_insertIn he with rfl | he
      · exact Std.OrientedCmp.gt_iff_lt.1 hgt
      · exact hhead e he

/-- Stores a value under a key, replacing the value it had. -/
def insert [Std.LawfulEqOrd α] (m : SortedMap α β) (k : α) (v : β) : SortedMap α β :=
  ⟨insertIn k v m.entries, insertIn_ascending m.ascending⟩

omit [Std.TransOrd α] in
private theorem filter_ascending {p : α × β → Bool} {l : List (α × β)}
    (h : l.Pairwise (fun a b => compare a.1 b.1 = .lt)) :
    (l.filter p).Pairwise (fun a b => compare a.1 b.1 = .lt) :=
  h.sublist List.filter_sublist

/-- Removes a key and its value. -/
def erase (m : SortedMap α β) (k : α) : SortedMap α β :=
  ⟨m.entries.filter (fun e => compare k e.1 != .eq), filter_ascending m.ascending⟩

/-- Collects entries, a later one replacing an earlier one of the same key. -/
def ofList [Std.LawfulEqOrd α] (l : List (α × β)) : SortedMap α β :=
  l.foldl (fun m e => m.insert e.1 e.2) empty

section Lookup

omit [Std.TransOrd α]

@[simp] theorem get?_empty (k : α) : (empty : SortedMap α β).get? k = none := rfl

private theorem lookupIn_eq_none_of_lt [Std.TransOrd α] {k : α} {l : List (α × β)}
    (h : ∀ e ∈ l, compare k e.1 = .lt) : lookupIn k l = none := by
  induction l with
  | nil => rfl
  | cons a rest ih =>
    obtain ⟨k', v'⟩ := a
    have hk : compare k k' = .lt := h _ (.head _)
    simp [lookupIn, hk, ih fun e he => h e (.tail _ he)]

end Lookup

theorem get?_insert [Std.LawfulEqOrd α] (m : SortedMap α β) (k k' : α) (v : β) :
    (m.insert k v).get? k' = if compare k' k = .eq then some v else m.get? k' := by
  obtain ⟨l, hl⟩ := m
  simp only [insert, get?]
  clear hl
  induction l with
  | nil => simp [insertIn, lookupIn]
  | cons a rest ih =>
    obtain ⟨a, b⟩ := a
    unfold insertIn
    split
    next hlt => simp [lookupIn]
    next heq =>
      obtain rfl : k = a := Std.LawfulEqCmp.eq_of_compare heq
      by_cases hk : compare k' k = .eq <;> simp [lookupIn, hk]
    next hgt =>
      by_cases hk : compare k' a = .eq
      · obtain rfl : k' = a := Std.LawfulEqCmp.eq_of_compare hk
        have hne : compare k' k ≠ .eq := by
          intro h
          obtain rfl : k' = k := Std.LawfulEqCmp.eq_of_compare h
          exact absurd (h.symm.trans hgt) (by decide)
        simp [lookupIn, hne]
      · simp [lookupIn, hk, ih]

omit [Std.TransOrd α] in
theorem get?_erase [Std.LawfulEqOrd α] (m : SortedMap α β) (k k' : α) :
    (m.erase k).get? k' = if compare k' k = .eq then none else m.get? k' := by
  obtain ⟨l, hl⟩ := m
  simp only [erase, get?]
  clear hl
  induction l with
  | nil => simp [lookupIn]
  | cons a rest ih =>
    obtain ⟨a, b⟩ := a
    by_cases ha : compare k a = .eq
    · obtain rfl : k = a := Std.LawfulEqCmp.eq_of_compare ha
      by_cases hk : compare k' k = .eq <;> simp_all [lookupIn]
    · by_cases hk : compare k' a = .eq
      · obtain rfl : k' = a := Std.LawfulEqCmp.eq_of_compare hk
        have hne : compare k' k ≠ .eq := fun h => by
          obtain rfl : k' = k := Std.LawfulEqCmp.eq_of_compare h
          exact ha hk
        simp [lookupIn, hne, ha]
      · simp [lookupIn, ha, hk, ih]

omit [Std.TransOrd α] in
theorem ext_entries {m n : SortedMap α β} (h : m.entries = n.entries) : m = n := by
  cases m; cases n; cases h; rfl

omit [Std.TransOrd α] in
private theorem lookupIn_head [Std.ReflOrd α] (k : α) (v : β) (l : List (α × β)) :
    lookupIn k ((k, v) :: l) = some v := by
  simp [lookupIn]

private theorem lookupIn_below [Std.LawfulEqOrd α] {k : α} {l : List (α × β)} {e : α × β}
    (hl : (e :: l).Pairwise (fun a b => compare a.1 b.1 = .lt)) (h : compare k e.1 = .lt) :
    lookupIn k (e :: l) = none := by
  apply lookupIn_eq_none_of_lt
  intro e' he'
  rcases List.mem_cons.1 he' with rfl | he'
  · exact h
  · exact Std.TransCmp.lt_trans h ((List.pairwise_cons.1 hl).1 e' he')

/-- The look-ups of a map determine it. -/
theorem ext_get? [Std.LawfulEqOrd α] {m n : SortedMap α β} (h : ∀ k, m.get? k = n.get? k) :
    m = n := by
  apply ext_entries
  obtain ⟨l, hl⟩ := m
  obtain ⟨r, hr⟩ := n
  simp only [get?] at h ⊢
  induction l generalizing r with
  | nil =>
    cases r with
    | nil => rfl
    | cons e r => simpa [lookupIn] using h e.1
  | cons d l ih =>
    cases r with
    | nil => simpa [lookupIn] using h d.1
    | cons e r =>
      obtain ⟨k, v⟩ := d
      obtain ⟨k', v'⟩ := e
      have hkk : k = k' := by
        cases hc : compare k k' with
        | eq => exact Std.LawfulEqCmp.eq_of_compare hc
        | lt => simpa [lookupIn_head, lookupIn_below hr hc] using h k
        | gt =>
          have hc' : compare k' k = .lt := Std.OrientedCmp.gt_iff_lt.1 hc
          simpa [lookupIn_head, lookupIn_below hl hc'] using h k'
      subst hkk
      have hv : v = v' := by simpa [lookupIn_head] using h k
      subst hv
      obtain ⟨hlk, hl'⟩ := List.pairwise_cons.1 hl
      obtain ⟨hrk, hr'⟩ := List.pairwise_cons.1 hr
      have hrest : ∀ x, lookupIn x l = lookupIn x r := by
        intro x
        by_cases hx : compare x k = .eq
        · obtain rfl : x = k := Std.LawfulEqCmp.eq_of_compare hx
          rw [lookupIn_eq_none_of_lt fun e he => hlk e he,
            lookupIn_eq_none_of_lt fun e he => hrk e he]
        · simpa [lookupIn, hx] using h x
      rw [ih hl' r hr' hrest]

/-- Storing the value that a key has changes nothing. -/
theorem insert_eq_self [Std.LawfulEqOrd α] {m : SortedMap α β} {k : α} {v : β}
    (h : m.get? k = some v) : m.insert k v = m := by
  refine ext_get? fun k' => ?_
  rw [get?_insert]
  split
  next hk => rw [Std.LawfulEqCmp.eq_of_compare hk, h]
  next => rfl

omit [Std.TransOrd α]

private theorem lookupIn_eq_some_iff [Std.LawfulEqOrd α] {k : α} {v : β} {l : List (α × β)}
    (h : l.Pairwise (fun a b => compare a.1 b.1 = .lt)) :
    lookupIn k l = some v ↔ (k, v) ∈ l := by
  induction l with
  | nil => simp [lookupIn]
  | cons e l ih =>
    obtain ⟨k', v'⟩ := e
    obtain ⟨hhead, hrest⟩ := List.pairwise_cons.1 h
    by_cases hk : compare k k' = .eq
    · obtain rfl : k = k' := Std.LawfulEqCmp.eq_of_compare hk
      have hnot : (k, v) ∉ l := fun hm => by
        have := hhead _ hm
        simp at this
      simp [lookupIn, hnot, eq_comm]
    · have hne : k ≠ k' := fun h => hk (by simp [h])
      simp [lookupIn, hk, hne, ih hrest]

/-- The entries of a map are its look-ups. -/
theorem mem_entries [Std.LawfulEqOrd α] {m : SortedMap α β} {k : α} {v : β} :
    (k, v) ∈ m.entries ↔ m.get? k = some v :=
  (lookupIn_eq_some_iff m.ascending).symm

theorem mem_keys [Std.LawfulEqOrd α] {m : SortedMap α β} {k : α} :
    k ∈ m.keys ↔ m.contains k = true := by
  simp only [keys, List.mem_map, contains, Option.isSome_iff_exists]
  constructor
  · rintro ⟨⟨_, v⟩, hm, rfl⟩
    exact ⟨v, mem_entries.1 hm⟩
  · rintro ⟨v, hv⟩
    exact ⟨(k, v), mem_entries.2 hv, rfl⟩

theorem mem_values [Std.LawfulEqOrd α] {m : SortedMap α β} {v : β} :
    v ∈ m.values ↔ ∃ k, m.get? k = some v := by
  simp only [values, List.mem_map]
  constructor
  · rintro ⟨⟨k, _⟩, hm, rfl⟩
    exact ⟨k, mem_entries.1 hm⟩
  · rintro ⟨k, hk⟩
    exact ⟨(k, v), mem_entries.2 hk, rfl⟩

theorem keys_ascending (m : SortedMap α β) : m.keys.Pairwise (fun a b => compare a b = .lt) :=
  List.pairwise_map.2 m.ascending

theorem keys_nodup [Std.ReflOrd α] (m : SortedMap α β) : m.keys.Nodup := by
  refine m.keys_ascending.imp fun {a b} hlt he => ?_
  rw [he, Std.ReflOrd.compare_self] at hlt
  cases hlt

end SortedMap

/-- A finite set, listed in strictly ascending order. -/
abbrev SortedSet (α : Type u) [Ord α] := SortedMap α Unit

namespace SortedSet

variable {α : Type u} [Ord α] [Std.TransOrd α] [Std.LawfulEqOrd α]

def add (s : SortedSet α) (a : α) : SortedSet α := SortedMap.insert s a ()

def ofList (l : List α) : SortedSet α := l.foldl add SortedMap.empty

theorem contains_add {s : SortedSet α} {a b : α} :
    (s.add a).contains b = true ↔ b = a ∨ s.contains b = true := by
  simp only [add, SortedMap.contains, SortedMap.get?_insert]
  by_cases h : compare b a = .eq
  · simp [Std.LawfulEqCmp.eq_of_compare h]
  · have hne : b ≠ a := fun e => h (by simp [e])
    simp [h, hne]

theorem contains_addAll {s : SortedSet α} {l : List α} {b : α} :
    (l.foldl add s).contains b = true ↔ b ∈ l ∨ s.contains b = true := by
  induction l generalizing s with
  | nil => simp
  | cons a l ih =>
    rw [List.foldl_cons, ih, contains_add, List.mem_cons]
    exact ⟨fun h => h.elim (.inl ∘ .inr) (·.elim (.inl ∘ .inl) .inr),
      fun h => h.elim (·.elim (.inr ∘ .inl) .inl) (.inr ∘ .inr)⟩

end SortedSet

end WikiMount
