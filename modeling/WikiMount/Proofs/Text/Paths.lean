import Mathlib.Data.List.TakeWhile
import WikiMount.Path

/-!
# Paths are read back

The tokens of a path are valid names, and a path that is written from valid names has these names as its
tokens: no name holds a slash, so the path comes apart where the names were joined. Slashes at the ends are
trimmed and make no difference.
-/

namespace WikiMount.Path

variable {name token path : String} {names : List String}

theorem isValidName_iff : isValidName name = true ↔
    name ≠ "" ∧ name ≠ "." ∧ name ≠ ".." ∧ '/' ∉ name.toList ∧ '\x00' ∉ name.toList := by
  simp [isValidName, and_assoc]

theorem checkToken_eq_ok : checkToken token = .ok name ↔ name = token ∧ isValidName token = true := by
  simp only [checkToken]
  split
  next h => simp [h, isValidName]
  · split
    next h => obtain rfl | rfl := h <;> simp [isValidName]
    · split
      next hvalid =>
        constructor
        · intro h
          exact ⟨(Except.ok.inj h).symm, hvalid⟩
        · rintro ⟨rfl, _⟩
          rfl
      next hvalid => simp [hvalid]

theorem mapM_checkToken {tokens : List String} : tokens.mapM checkToken = .ok names ↔
    names = tokens ∧ ∀ n ∈ tokens, isValidName n = true := by
  induction tokens generalizing names with
  | nil => simp [pure, Except.pure]
  | cons token rest ih =>
    simp only [List.mapM_cons, bind, Except.bind]
    cases hfirst : checkToken token with
    | error e =>
      have hnot : isValidName token ≠ true := by
        intro h
        rw [checkToken_eq_ok.2 ⟨rfl, h⟩] at hfirst
        cases hfirst
      simp [hnot]
    | ok first =>
      obtain ⟨rfl, hvalid⟩ := checkToken_eq_ok.1 hfirst
      cases hrest : rest.mapM checkToken with
      | error e =>
        have hnot : ¬∀ n ∈ rest, isValidName n = true := by
          intro h
          rw [ih.2 ⟨rfl, h⟩] at hrest
          cases hrest
        simp [hvalid, hnot]
      | ok others =>
        obtain ⟨rfl, hall⟩ := ih.1 hrest
        constructor
        · intro h
          exact ⟨(Except.ok.inj h).symm, List.forall_mem_cons.2 ⟨hvalid, hall⟩⟩
        · rintro ⟨rfl, _⟩
          rfl

/-- The tokens of a path are valid names. -/
theorem valid_of_tokens (h : tokens path = .ok names) : ∀ n ∈ names, isValidName n = true := by
  simp only [tokens] at h
  split at h
  · obtain rfl := Except.ok.inj h
    simp
  · obtain ⟨rfl, hvalid⟩ := mapM_checkToken.1 h
    exact hvalid

/-! ## Writing -/

/-- The path with the given tokens, a slash before each. -/
def written (names : List String) : String := String.join (names.map ("/" ++ ·))

theorem toList_written (h : names ≠ []) :
    (written names).toList = '/' :: ['/'].intercalate (names.map String.toList) := by
  induction names with
  | nil => exact absurd rfl h
  | cons name names ih =>
    cases names with
    | nil => simp [written]
    | cons next rest =>
      have hrest := ih (by simp)
      simp only [written, String.toList_join, List.map_cons, List.flatMap_cons,
        String.toList_append] at hrest ⊢
      rw [hrest, List.intercalate_cons_cons]
      simp

theorem dropWhile_slash {cs : List Char} (h : cs.head? ≠ some '/') :
    cs.dropWhile (· == '/') = cs := by
  cases cs with
  | nil => rfl
  | cons c cs =>
    have hc : ¬(c == '/') = true := fun heq => h (by simp [eq_of_beq heq])
    exact List.dropWhile_cons_of_neg hc

theorem exists_slashes_dropWhile (cs : List Char) :
    ∃ n, cs = List.replicate n '/' ++ cs.dropWhile (· == '/') := by
  have hslashes : ∀ c ∈ cs.takeWhile (· == '/'), c = '/' := fun c hc =>
    eq_of_beq (List.mem_takeWhile_imp (p := (· == '/')) hc)
  refine ⟨(cs.takeWhile (· == '/')).length, ?_⟩
  rw [← List.eq_replicate_iff.2 ⟨rfl, hslashes⟩, List.takeWhile_append_dropWhile]

/-- Trimming takes slashes away and nothing else. -/
theorem exists_slashes_trim (cs : List Char) : ∃ before after,
    cs = List.replicate before '/' ++ trim cs ++ List.replicate after '/' := by
  obtain ⟨before, hbefore⟩ := exists_slashes_dropWhile cs
  obtain ⟨after, hafter⟩ := exists_slashes_dropWhile (cs.dropWhile (· == '/')).reverse
  refine ⟨before, after, ?_⟩
  have hrest : cs.dropWhile (· == '/') = trim cs ++ List.replicate after '/' := by
    have hback := congrArg List.reverse hafter
    rwa [List.reverse_reverse, List.reverse_append, List.reverse_replicate] at hback
  rw [List.append_assoc, ← hrest]
  exact hbefore

theorem trim_slashes {cs : List Char} (hfirst : cs.head? ≠ some '/') (hlast : cs.getLast? ≠ some '/')
    (before after : Nat) :
    trim (List.replicate before '/' ++ cs ++ List.replicate after '/') = cs := by
  have hall : ∀ n : Nat, ∀ c ∈ List.replicate n '/', (c == '/') = true := fun n c hc => by
    simp [List.eq_of_mem_replicate hc]
  cases cs with
  | nil =>
    have hnil : (List.replicate after '/').dropWhile (· == '/') = [] :=
      List.dropWhile_eq_nil_iff.2 (hall after)
    rw [trim, List.append_nil, List.dropWhile_append_of_pos (hall before), hnil]
    rfl
  | cons c cs =>
    have hreverse : (c :: cs).reverse.head? ≠ some '/' := by
      rwa [List.head?_reverse]
    have hbegin : (c :: cs ++ List.replicate after '/').dropWhile (· == '/') =
        c :: cs ++ List.replicate after '/' := dropWhile_slash hfirst
    rw [trim, List.append_assoc, List.dropWhile_append_of_pos (hall before), hbegin,
      List.reverse_append, List.reverse_replicate, List.dropWhile_append_of_pos (hall after),
      dropWhile_slash hreverse, List.reverse_reverse]

/-- Joined names begin with a slash only if the first one is empty. -/
theorem head?_joined {cs : List Char} {rest : List (List Char)} (hcs : cs ≠ []) (h : '/' ∉ cs) :
    (['/'].intercalate (cs :: rest)).head? ≠ some '/' := by
  have hhead : cs.head? ≠ some '/' := fun hslash => h (List.mem_of_head? hslash)
  obtain ⟨c, cs, rfl⟩ := List.exists_cons_of_ne_nil hcs
  cases rest with
  | nil => simpa using hhead
  | cons ds rest => simpa [List.intercalate_cons_cons] using hhead

/-- Joined names end in a slash only if the last one is empty. -/
theorem getLast?_joined {pieces : List (List Char)} (h : ∀ cs ∈ pieces, '/' ∉ cs)
    (hlast : pieces.getLast? ≠ some []) : (['/'].intercalate pieces).getLast? ≠ some '/' := by
  induction pieces with
  | nil => simp
  | cons cs rest ih =>
    cases rest with
    | nil =>
      have hslash : cs.getLast? ≠ some '/' := fun hs => h cs (.head _) (List.mem_of_getLast? hs)
      simpa using hslash
    | cons ds rest =>
      have hrest := ih (fun es hes => h es (.tail _ hes)) (by simpa using hlast)
      rw [List.intercalate_cons_cons, List.getLast?_append]
      cases hjoined : ['/'].intercalate (ds :: rest) with
      | nil =>
        have hds : ds = [] ∧ rest = [] := by
          cases rest with
          | nil => simpa using hjoined
          | cons es rest => simp [List.intercalate_cons_cons] at hjoined
        obtain ⟨rfl, rfl⟩ := hds
        exact absurd rfl hlast
      | cons c joined =>
        rw [hjoined] at hrest
        simpa [List.getLast?_cons] using hrest

/-- A path of names without slashes, whatever slashes it has at its ends, is taken apart into these names,
and each of them is checked. -/
theorem tokens_slashes (before after : Nat) (hne : names ≠ []) (h : ∀ n ∈ names, '/' ∉ n.toList)
    (hfirst : names.head? ≠ some "") (hlast : names.getLast? ≠ some "")
    (hpath : path.toList = List.replicate before '/' ++ ['/'].intercalate (names.map String.toList) ++
      List.replicate after '/') :
    tokens path = names.mapM checkToken := by
  obtain ⟨first, rest, rfl⟩ := List.exists_cons_of_ne_nil hne
  have hpieces : ∀ cs ∈ (first :: rest).map String.toList, '/' ∉ cs := by
    intro cs hcs
    obtain ⟨n, hn, rfl⟩ := List.mem_map.1 hcs
    exact h n hn
  have hbegin : first.toList ≠ [] := by
    intro hnil
    exact hfirst (congrArg some (String.toList_eq_nil_iff.1 hnil))
  have hend : ((first :: rest).map String.toList).getLast? ≠ some [] := by
    rw [List.getLast?_map]
    intro hnil
    obtain ⟨n, hn, hn'⟩ := Option.map_eq_some_iff.1 hnil
    exact hlast (String.toList_eq_nil_iff.1 hn' ▸ hn)
  have htrim : trim path.toList = ['/'].intercalate ((first :: rest).map String.toList) := by
    rw [hpath]
    exact trim_slashes (head?_joined hbegin (h first (.head _))) (getLast?_joined hpieces hend) _ _
  have hsplit : (['/'].intercalate ((first :: rest).map String.toList)).splitOn '/' =
      (first :: rest).map String.toList :=
    List.splitOn_intercalate '/' hpieces (by simp)
  have hback : ((first :: rest).map String.toList).map String.ofList = first :: rest := by
    simp
  simp only [tokens, htrim]
  split
  next hnil =>
    rw [hnil] at hsplit
    obtain ⟨hempty, _⟩ := List.cons.inj hsplit
    exact absurd hempty.symm hbegin
  · rw [hsplit, hback]

/-- A path that is written from names without slashes is taken apart into these names, and each of them is
checked. -/
theorem tokens_joined (hne : names ≠ []) (h : ∀ n ∈ names, '/' ∉ n.toList)
    (hfirst : names.head? ≠ some "") (hlast : names.getLast? ≠ some "") :
    tokens (written names) = names.mapM checkToken :=
  tokens_slashes 1 0 hne h hfirst hlast (by simp [toList_written hne])

/-! ## Spelling -/

/-- A path is spelled from names: the names are valid, there is a slash between any two of them, and any
number of slashes stand at the two ends. -/
structure Spells (path : String) (names : List String) : Prop where
  valid : ∀ n ∈ names, isValidName n = true
  slashes : ∃ before after, path.toList = List.replicate before '/' ++
    ['/'].intercalate (names.map String.toList) ++ List.replicate after '/'

/-- A path has tokens exactly if it is spelled from valid names, and these are its tokens. -/
theorem tokens_eq_ok_iff_spells : tokens path = .ok names ↔ Spells path names := by
  constructor
  · intro h
    obtain ⟨before, after, hpath⟩ := exists_slashes_trim path.toList
    refine ⟨valid_of_tokens h, before, after, hpath.trans ?_⟩
    by_cases hnil : trim path.toList = []
    · simp only [tokens, hnil] at h
      obtain rfl := Except.ok.inj h
      rw [hnil]
      rfl
    · simp only [tokens] at h
      obtain ⟨rfl, _⟩ := mapM_checkToken.1 h
      have hback : (((trim path.toList).splitOn '/').map String.ofList).map String.toList =
          (trim path.toList).splitOn '/' := by simp
      rw [hback, List.intercalate_splitOn]
  · rintro ⟨hvalid, before, after, hpath⟩
    have hends : ∀ n ∈ names, n ≠ "" := fun n hn => (isValidName_iff.1 (hvalid n hn)).1
    by_cases hne : names = []
    · subst hne
      have htrim : trim path.toList = [] := by
        rw [hpath]
        exact trim_slashes (by simp) (by simp) before after
      simp [tokens, htrim]
    · rw [tokens_slashes before after hne (fun n hn => (isValidName_iff.1 (hvalid n hn)).2.2.2.1)
        (fun hfirst => hends "" (List.mem_of_head? hfirst) rfl)
        (fun hlast => hends "" (List.mem_of_getLast? hlast) rfl) hpath]
      exact mapM_checkToken.2 ⟨rfl, hvalid⟩

theorem spells_written (hne : names ≠ []) (h : ∀ n ∈ names, isValidName n = true) :
    Spells (written names) names :=
  ⟨h, 1, 0, by simp [toList_written hne]⟩

/-- The tokens of a path that is written from valid names are these names. -/
theorem tokens_written (hne : names ≠ []) (h : ∀ n ∈ names, isValidName n = true) :
    tokens (written names) = .ok names :=
  tokens_eq_ok_iff_spells.2 (spells_written hne h)

/-- The path with one slash before each name, or before no name at all. -/
def canonical (names : List String) : String := "/" ++ "/".intercalate names

/-- One of the spellings of a path is the canonical one. -/
theorem spells_canonical (h : ∀ n ∈ names, isValidName n = true) : Spells (canonical names) names :=
  ⟨h, 1, 0, by simp [canonical, String.toList_intercalate]⟩

theorem canonical_eq_written (hne : names ≠ []) : canonical names = written names := by
  apply String.toList_injective
  simp [canonical, toList_written hne, String.toList_intercalate]

/-! ## Directories -/

/-- The path of a name in the directory of a path. -/
def below (dir name : String) : String := if dir = "/" then "/" ++ name else dir ++ "/" ++ name

/-- Names in one directory have different paths. -/
theorem below_inj {dir other : String} : below dir name = below dir other ↔ name = other := by
  simp only [below]
  split <;> simp [String.ext_iff]

theorem written_concat (names : List String) (name : String) :
    written (names ++ [name]) = written names ++ "/" ++ name := by
  apply String.toList_injective
  simp [written, String.toList_join]

/-- Names that are written one after the other do not come to the root. -/
theorem written_ne_root (hne : names ≠ []) (h : ∀ n ∈ names, isValidName n = true) :
    written names ≠ "/" := by
  intro hroot
  have hread := tokens_written hne h
  rw [hroot] at hread
  exact hne (Except.ok.inj hread).symm

/-- The path of a directory and of a name in it, by the tokens that lead to the directory. -/
theorem below_written (h : ∀ n ∈ names, isValidName n = true) (name : String) :
    below (if names = [] then "/" else written names) name = written (names ++ [name]) := by
  rw [written_concat]
  by_cases hnil : names = []
  · subst hnil
    rfl
  · rw [if_neg hnil, below, if_neg (written_ne_root hnil h)]

end WikiMount.Path
