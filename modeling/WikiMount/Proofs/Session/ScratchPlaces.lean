import WikiMount.Proofs.Session.PrivateFiles

/-!
# Where scratch files are listed

A storage files a scratch file under its full path and takes the path apart at the last slash to list the
file in its directory. Below the root that undoes how the path is made. The root also lists a file whose
path has no slash, or two slashes before its name, and under another path than the one that it is filed
under. Requests leave no such files: the paths that they leave files under are written from valid names.
-/

namespace WikiMount

namespace Scratch

/-- Every file has the path that it is listed under. -/
def Placed (s : Scratch) : Prop :=
  ∀ file, s.contains file = true → file = Path.below (directory file) (fileName file)

variable {s : Scratch} {file dir path name : String}

/-! ## Paths -/

/-- A path that does not stand in the root is its directory and its name. -/
theorem eq_below_directory (h : directory file ≠ "/") :
    file = Path.below (directory file) (fileName file) := by
  have hparts : file.toList.reverse.takeWhile (· != '/') ++ file.toList.reverse.dropWhile (· != '/') =
      file.toList.reverse := List.takeWhile_append_dropWhile
  have hslash := List.head?_dropWhile_not (· != '/') file.toList.reverse
  cases hrest : file.toList.reverse.dropWhile (· != '/') with
  | nil => exact absurd (by simp [directory, hrest]) h
  | cons c rest =>
    rw [hrest] at hparts hslash
    obtain rfl : c = '/' := by simpa using hslash
    have hdirectory : (directory file).toList = rest.reverse := by
      cases hchars : rest.reverse with
      | nil => exact absurd (by simp [directory, hrest, hchars]) h
      | cons d ds => simp [directory, hrest, hchars]
    apply String.toList_injective
    rw [Path.below, if_neg h, ← List.reverse_inj, ← hparts]
    simp [hdirectory, fileName]

/-- The tokens before the last one lead to the directory. -/
theorem directory_written (names : List String) (h : '/' ∉ name.toList) :
    directory (Path.written (names ++ [name])) = if names = [] then "/" else Path.written names := by
  rw [directory, (reverse_written names h).2, List.drop_one, List.tail_cons, List.reverse_reverse]
  by_cases hnil : names = []
  · subst hnil
    rfl
  · rw [if_neg hnil, Path.toList_written hnil]
    simp [← Path.toList_written hnil]

/-- A path that is written from valid names is the one that its name is listed under. -/
theorem eq_below_of_written {names : List String} (hne : names ≠ [])
    (h : ∀ n ∈ names, Path.isValidName n = true) :
    Path.written names =
      Path.below (directory (Path.written names)) (fileName (Path.written names)) := by
  obtain ⟨first, last, rfl⟩ := (List.eq_nil_or_concat names).resolve_left hne
  rw [List.concat_eq_append] at h ⊢
  have hslash : '/' ∉ last.toList := (Path.isValidName_iff.1 (h last (by simp))).2.2.2.1
  rw [directory_written first hslash, fileName_written first hslash,
    Path.below_written fun n hn => h n (List.mem_append_left _ hn)]

/-! ## Listings -/

/-- A file has the path that it is listed under, unless it is misplaced and listed in the root. -/
theorem eq_below_of_listed (hplaced : dir ≠ "/" ∨ s.Placed) (hfile : s.contains file = true)
    (hdir : directory file = dir) : file = Path.below dir (fileName file) := by
  subst hdir
  rcases hplaced with hroot | hplaced
  · exact eq_below_directory hroot
  · exact hplaced file hfile

/-- What is listed is there. -/
theorem contains_of_mem_namesIn (hplaced : dir ≠ "/" ∨ s.Placed) (h : name ∈ s.namesIn dir) :
    s.contains (Path.below dir name) = true := by
  obtain ⟨file, hfile, hdir, rfl⟩ := mem_namesIn.1 h
  rwa [← eq_below_of_listed hplaced hfile hdir]

/-- Nothing is listed twice. -/
theorem namesIn_nodup (hplaced : dir ≠ "/" ∨ s.Placed) : (s.namesIn dir).Nodup := by
  refine List.Nodup.map_on ?_ (s.files.keys_nodup.filter _)
  intro file hfile other hother hname
  simp only [List.mem_filter, SortedMap.mem_keys, beq_iff_eq] at hfile hother
  obtain ⟨hfile, hdir⟩ := hfile
  obtain ⟨hother, hdir'⟩ := hother
  calc file = Path.below dir (fileName file) := eq_below_of_listed hplaced hfile hdir
    _ = Path.below dir (fileName other) := by rw [hname]
    _ = other := (eq_below_of_listed hplaced hother hdir').symm

/-! ## Changes -/

theorem Placed.empty : Scratch.empty.Placed := fun _ h => by cases h

theorem Placed.write {names : List String} (h : s.Placed) (hne : names ≠ [])
    (hvalid : ∀ n ∈ names, Path.isValidName n = true) (data : Bytes) :
    (s.write (Path.written names) data).Placed := by
  intro other hother
  rcases contains_write.1 hother with rfl | hother
  · exact eq_below_of_written hne hvalid
  · exact h other hother

theorem Placed.remove (h : s.Placed) (path : String) : (s.remove path).Placed :=
  fun other hother => h other (contains_of_remove hother)

end Scratch

/-- A change at a path leaves scratch files where they are listed. -/
theorem Context.ChangesFile.placed {ctx : Context} {path : String} {change : Option Bytes}
    {outcome : Except ViewError Unit × Workspace} (h : ctx.ChangesFile path change outcome)
    (hctx : ∀ files, ctx.scratch = some files → files.Placed) :
    ∀ files, outcome.2.scratch = some files → files.Placed := by
  intro files hfiles
  obtain ⟨names, htokens, hnames, rfl⟩ | ⟨hkept, _⟩ := h
  · cases change with
    | some data =>
      obtain ⟨before, hbefore, rfl⟩ := Option.map_eq_some_iff.1 hfiles
      exact (hctx before hbefore).write hnames.ne_nil (Path.valid_of_tokens htokens) data
    | none =>
      obtain ⟨before, hbefore, rfl⟩ := Option.map_eq_some_iff.1 hfiles
      exact (hctx before hbefore).remove _
  · exact hctx files (hkept ▸ hfiles)

namespace Service

variable {s : Service}

theorem context_placed (h : ∀ n, (s.sessions.storage n).Placed) (caller : Caller) (intent : Intent) :
    ∀ files, (s.context caller intent).scratch = some files → files.Placed := by
  intro files hfiles
  rw [context_scratch] at hfiles
  exact Option.some.inj hfiles ▸ h _

/-- The sessions of a service keep scratch files where they are listed. -/
theorem Serving.placed (h : s.Serving) : ∀ n, (s.sessions.storage n).Placed := by
  induction h with
  | new repository config => exact fun _ => .empty
  | @handle s caller request _ ih =>
    cases request with
    | makeCollection path =>
      simp only [Service.handle, respond]
      refine run_storages .empty ih ?_
      exact (Context.makeCollection_changesFile _ path).placed (context_placed ih caller _)
    | put path data =>
      simp only [Service.handle, respond]
      refine run_storages .empty ih ?_
      exact (Context.put_changesFile _ path data).placed (context_placed ih caller _)
    | delete path =>
      simp only [Service.handle, respond]
      refine run_storages .empty ih ?_
      exact (Context.delete_changesFile _ path).placed (context_placed ih caller _)
    | rename path other =>
      intro n
      simp only [Service.handle, respond, rename_storage]
      exact ih n
    | _ =>
      intro n
      simp only [Service.handle, respond]
      rw [run_storage_of_kept rfl]
      exact ih n
  | advance seconds nanoseconds _ ih => exact ih
  | purge _ ih => exact ih
  | store repository _ ih => exact ih

end Service

end WikiMount
