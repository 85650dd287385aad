import Mathlib.Data.List.DropRight
import RegistryBindings.Proofs.Text.Words
import RegistryBindings.Storage.Path

/-!
# What a path is made of

The names of a path say all about it: whether it begins at the root, which file it is for, and which
directory holds that file. A path that ends in the name of its file is the names of its directory, some
names that lead nowhere, and that name.
-/

namespace RegistryBindings.Storage.Path

open Text

theorem names_ne_nil (path : String) : names path ≠ [] := by
  rw [names, Ne, List.map_eq_nil_iff]
  exact pieces_ne_nil '/' path.toList

theorem slash_not_mem_of_mem_names {path name : String} (h : name ∈ names path) :
    '/' ∉ name.toList := by
  obtain ⟨piece, hpiece, rfl⟩ := List.mem_map.mp h
  rw [String.toList_ofList]
  exact not_mem_of_mem_pieces hpiece

theorem names_of_slash_not_mem {name : String} (h : '/' ∉ name.toList) : names name = [name] := by
  rw [names, pieces_of_not_mem h, List.map_singleton, String.ofList_toList]

theorem names_append_slash (path more : String) :
    names (path ++ "/" ++ more) = names path ++ names more := by
  have hslash : (path ++ "/" ++ more).toList = path.toList ++ '/' :: more.toList := by simp
  rw [names, hslash, pieces_append_separator, List.map_append, names, names]

/-- Names that are put together again are the names of what comes out. -/
theorem names_intercalate {given : List String} (hne : given ≠ [])
    (hslash : ∀ name ∈ given, '/' ∉ name.toList) : names ("/".intercalate given) = given := by
  induction given with
  | nil => exact absurd rfl hne
  | cons name given ih =>
    have hname := names_of_slash_not_mem (hslash name List.mem_cons_self)
    cases given with
    | nil => simpa using hname
    | cons next given =>
      rw [String.intercalate_cons_cons, names_append_slash, hname,
        ih (List.cons_ne_nil _ _) fun other hother => hslash other (List.mem_cons_of_mem name hother),
        List.singleton_append]

/-- An absolute path is one that goes on after an empty name. -/
theorem isAbsolute_iff {path : String} :
    isAbsolute path = true ↔ (names path).head? = some "" ∧ 1 < (names path).length := by
  rw [isAbsolute, decide_eq_true_iff, names, List.head?_map, List.length_map]
  cases path.toList with
  | nil => simp [pieces]
  | cons c text =>
    obtain ⟨first, rest, hpieces⟩ := List.exists_cons_of_ne_nil (pieces_ne_nil '/' text)
    by_cases hc : c = '/'
    · simp [pieces, hc, hpieces]
    · simp [pieces_cons hc hpieces, hc]

/-- A path that ends in the name of its file. -/
theorem names_of_bare {path name : String} (hname : fileName? path = some name)
    (hbare : ending path = .bare) :
    isIdle name = false ∧ name ≠ ".." ∧ ∃ before, names path = before ++ [name] := by
  obtain ⟨before, last, hnames⟩ := (names path).eq_nil_or_concat.resolve_left (names_ne_nil path)
  rw [List.concat_eq_append] at hnames
  have hlast : isIdle last = false := by
    rw [ending, hnames, List.reverse_append, List.reverse_singleton, List.singleton_append,
      List.takeWhile_cons] at hbare
    by_contra hidle
    rw [Bool.not_eq_false] at hidle
    rw [if_pos hidle, Ending.ofNames, if_neg (List.cons_ne_nil _ _)] at hbare
    split at hbare <;> cases hbare
  have hsteps : (steps path).getLast? = some last := by
    rw [steps, hnames, List.filter_append, List.filter_singleton, hlast]
    simp
  rw [fileName?, hsteps] at hname
  by_cases hdots : last = ".."
  · simp [hdots] at hname
  · simp only [hdots, if_false, Option.some.injEq] at hname
    subst hname
    exact ⟨hlast, hdots, before, hnames⟩

/-- The names before the file's are those of its directory and some that lead nowhere. -/
theorem directory_of_names {path name : String} {before : List String}
    (hname : isIdle name = false) (hnames : names path = before ++ [name]) :
    (before.all isIdle = true ∧ (names (directory path)).all isIdle = true ∨
        ∃ idle, idle.all isIdle = true ∧ before = names (directory path) ++ idle) ∧
      isAbsolute (directory path) = isAbsolute path := by
  obtain ⟨above, hrest, idle, hsplit, hidle, hlast⟩ : ∃ above,
      ((((names path).reverse.dropWhile isIdle).drop 1).dropWhile isIdle).reverse = above ∧
      ∃ idle, before = above ++ idle ∧ idle.all isIdle = true ∧
        ∀ hne : above ≠ [], ¬isIdle (above.getLast hne) = true := by
    refine ⟨before.rdropWhile isIdle, ?_, before.rtakeWhile isIdle, ?_, ?_,
      List.rdropWhile_last_not isIdle before⟩
    · rw [hnames, List.reverse_append, List.reverse_singleton, List.singleton_append,
        List.dropWhile_cons_of_neg (by simp [hname]), List.drop_one, List.tail_cons, List.rdropWhile]
    · rw [List.rdropWhile, List.rtakeWhile, ← List.reverse_append, List.takeWhile_append_dropWhile,
        List.reverse_reverse]
    · exact List.all_eq_true.mpr fun other hother => List.mem_rtakeWhile_imp hother
  rw [directory, hrest]
  by_cases hnil : above = []
  · rw [if_pos hnil]
    rw [hnil, List.nil_append] at hsplit
    refine ⟨.inl ⟨hsplit ▸ hidle, ?_⟩, ?_⟩
    · split <;> decide
    · split
      · next h => rw [h]; decide
      · next h => rw [Bool.not_eq_true] at h; rw [h]; decide
  · have hslash : ∀ other ∈ above, '/' ∉ other.toList := by
      intro other hother
      have hbefore : other ∈ before := hsplit ▸ List.mem_append_left _ hother
      exact slash_not_mem_of_mem_names (hnames ▸ List.mem_append_left _ hbefore)
    have hdirectory := names_intercalate hnil hslash
    rw [if_neg hnil]
    refine ⟨.inr ⟨idle, hidle, by rw [hdirectory, hsplit]⟩, ?_⟩
    -- The last name above the file leads somewhere, so an empty first name is not the only one.
    have hlast := hlast hnil
    rw [Bool.eq_iff_iff, isAbsolute_iff, isAbsolute_iff, hdirectory, hnames, hsplit]
    match above with
    | [first] =>
      have hne : first ≠ "" := by
        rintro rfl
        exact hlast rfl
      simp [hne]
    | first :: next :: rest => simp

theorem fileName?_join {folder file : String} (hslash : '/' ∉ file.toList)
    (hidle : isIdle file = false) (hdots : file ≠ "..") :
    fileName? (join folder file) = some file := by
  have hfile := names_of_slash_not_mem hslash
  have hrelative : isAbsolute file = false := by
    rw [← Bool.not_eq_true, isAbsolute_iff, hfile]
    simp
  obtain ⟨before, hnames⟩ : ∃ before, names (join folder file) = before ++ [file] := by
    rw [join, hrelative, Bool.false_or]
    split
    · exact ⟨[], hfile⟩
    · split
      · next hlast =>
        obtain ⟨start, hfolder⟩ := List.getLast?_eq_some_iff.mp hlast
        have hsplit : folder = String.ofList start ++ "/" := by
          rw [← String.toList_inj, String.toList_append, String.toList_ofList, hfolder]
          rfl
        exact ⟨names (String.ofList start), by rw [hsplit, names_append_slash, hfile]⟩
      · exact ⟨names folder, by rw [names_append_slash, hfile]⟩
  have hlast : (steps (join folder file)).getLast? = some file := by
    rw [steps, hnames, List.filter_append, List.filter_singleton, hidle]
    simp
  rw [fileName?, hlast]
  simp [hdots]

end RegistryBindings.Storage.Path
