import RegistryBindings.Proofs.Storage.Path
import RegistryBindings.Storage.FileSystem

/-!
# Finding a file again

A walk passes through directories alone. So an entry that is put where no directory is does not turn a
walk aside, and a file that was put in the directory of a path is what the path leads to.
-/

namespace RegistryBindings.Storage.FileSystem

variable {files : FileSystem}

theorem lookup?_put (files : FileSystem) {location : Location} (hne : location ≠ []) (entry : Entry)
    (other : Location) :
    (files.put location entry).lookup? other = if location = other then some entry else files.lookup? other := by
  rw [lookup?, lookup?, put, Std.ExtTreeMap.getElem?_insert]
  by_cases hother : other = []
  · simp [hother, hne]
  · simp [hother]

theorem step_eq_ok_iff {location next : Location} {name : String} :
    files.step location name = .ok next ↔
      files.lookup? location = some .directory ∧ name.utf8ByteSize ≤ nameLimit ∧
        FileSystem.next location name = next := by
  rw [step]
  split
  · next h => simp [h]
  · next h => simp [h]
  · next h =>
    split
    · next hsize => simp [Nat.not_le.mpr hsize]
    · next hsize => simp [h, Nat.not_lt.mp hsize]

theorem walk_cons (location : Location) (name : String) (names : List String) :
    files.walk location (name :: names) = (files.step location name).bind (files.walk · names) :=
  List.foldlM_cons

theorem walk_append (location : Location) (names more : List String) :
    files.walk location (names ++ more) = (files.walk location names).bind (files.walk · more) :=
  List.foldlM_append

theorem walk_cons_eq_ok_iff {location destination : Location} {name : String} {names : List String} :
    files.walk location (name :: names) = .ok destination ↔
      ∃ next, files.step location name = .ok next ∧ files.walk next names = .ok destination := by
  rw [walk_cons]
  cases files.step location name with
  | error fault => simp [Except.bind]
  | ok next => simp [Except.bind]

theorem walk_append_of_eq_ok {location middle : Location} {names : List String}
    (h : files.walk location names = .ok middle) (more : List String) :
    files.walk location (names ++ more) = files.walk middle more := by
  rw [walk_append, h]
  rfl

theorem step_of_isIdle {location : Location} {name : String}
    (hdirectory : files.lookup? location = some .directory) (hidle : Path.isIdle name = true) :
    files.step location name = .ok location := by
  refine step_eq_ok_iff.mpr ⟨hdirectory, ?_, by rw [next, if_pos hidle]⟩
  rw [Path.isIdle, Bool.or_eq_true, decide_eq_true_iff, decide_eq_true_iff] at hidle
  rcases hidle with rfl | rfl <;> decide

/-- Names that lead nowhere are passed over in a directory. -/
theorem walk_of_isIdle {location : Location} {names : List String}
    (hdirectory : files.lookup? location = some .directory) (hidle : names.all Path.isIdle = true) :
    files.walk location names = .ok location := by
  induction names with
  | nil => rfl
  | cons name names ih =>
    rw [List.all_cons, Bool.and_eq_true] at hidle
    exact walk_cons_eq_ok_iff.mpr ⟨location, step_of_isIdle hdirectory hidle.1, ih hidle.2⟩

theorem eq_of_walk_of_isIdle {location destination : Location} {names : List String}
    (hwalk : files.walk location names = .ok destination) (hidle : names.all Path.isIdle = true) :
    destination = location := by
  cases names with
  | nil =>
    cases hwalk
    rfl
  | cons name names =>
    obtain ⟨next, hstep, -⟩ := walk_cons_eq_ok_iff.mp hwalk
    have hdirectory := (step_eq_ok_iff.mp hstep).1
    rw [walk_of_isIdle hdirectory hidle] at hwalk
    cases hwalk
    rfl

/-- Each location that a walk leaves is a directory, so an entry put elsewhere is not on its way. -/
theorem walk_put {location start destination : Location} {entry : Entry} {names : List String}
    (hne : location ≠ []) (hfree : files.lookup? location ≠ some .directory)
    (hwalk : files.walk start names = .ok destination) :
    (files.put location entry).walk start names = .ok destination := by
  induction names generalizing start with
  | nil => exact hwalk
  | cons name names ih =>
    obtain ⟨next, hstep, hrest⟩ := walk_cons_eq_ok_iff.mp hwalk
    obtain ⟨hdirectory, hsize, hnext⟩ := step_eq_ok_iff.mp hstep
    have hother : location ≠ start := by
      rintro rfl
      exact hfree hdirectory
    refine walk_cons_eq_ok_iff.mpr ⟨next, step_eq_ok_iff.mpr ⟨?_, hsize, hnext⟩, ih hrest⟩
    rw [lookup?_put files hne, if_neg hother, hdirectory]

theorem locate_eq_ok_iff {path : String} {location : Location} :
    files.locate path = .ok location ↔
      checkPath path = .ok () ∧ path.isEmpty = false ∧
        files.walk (files.start path) (Path.names path) = .ok location := by
  rw [locate]
  cases checkPath path with
  | error fault => simp [bind, Except.bind]
  | ok _ =>
    cases path.isEmpty with
    | true => simp [bind, Except.bind, throw, throwThe, MonadExceptOf.throw]
    | false => simp [bind, Except.bind]

theorem locate_put {location destination : Location} (entry : Entry) {path : String}
    (hne : location ≠ []) (hfree : files.lookup? location ≠ some .directory)
    (hlocate : files.locate path = .ok destination) :
    (files.put location entry).locate path = .ok destination := by
  obtain ⟨hcheck, hempty, hwalk⟩ := locate_eq_ok_iff.mp hlocate
  exact locate_eq_ok_iff.mpr ⟨hcheck, hempty, walk_put hne hfree hwalk⟩

theorem directoryOf_eq_ok_iff {path : String} {directory : Location} :
    files.directoryOf path = .ok directory ↔
      files.locate (Path.directory path) = .ok directory ∧
        files.lookup? directory = some .directory := by
  rw [directoryOf]
  cases files.locate (Path.directory path) with
  | error fault => simp [bind, Except.bind]
  | ok location =>
    simp only [bind, Except.bind, Except.ok.injEq]
    constructor
    · intro h
      split at h
      · cases h
      · cases h
      · next hlookup =>
        cases h
        exact ⟨rfl, hlookup⟩
    · rintro ⟨rfl, hlookup⟩
      rw [hlookup]
      rfl

/-- The path of a file leads to the file's name in the path's directory. -/
theorem locate_of_directoryOf {path name : String} {directory : Location}
    (hcheck : checkPath path = .ok ()) (hname : Path.fileName? path = some name)
    (hbare : Path.ending path = .bare) (hdirectory : files.directoryOf path = .ok directory)
    (hsize : name.utf8ByteSize ≤ nameLimit) : files.locate path = .ok (directory ++ [name]) := by
  obtain ⟨hidle, hdots, before, hnames⟩ := Path.names_of_bare hname hbare
  obtain ⟨habove, habsolute⟩ := Path.directory_of_names hidle hnames
  obtain ⟨hlocate, hlookup⟩ := directoryOf_eq_ok_iff.mp hdirectory
  obtain ⟨-, -, hwalk⟩ := locate_eq_ok_iff.mp hlocate
  have hstart : files.start (Path.directory path) = files.start path := by
    rw [start, start, habsolute]
  rw [hstart] at hwalk
  have hbefore : files.walk (files.start path) before = .ok directory := by
    rcases habove with ⟨hidleBefore, hidleDirectory⟩ | ⟨idle, hidleRest, hsplit⟩
    · rw [← eq_of_walk_of_isIdle hwalk hidleDirectory]
      exact walk_of_isIdle hlookup hidleBefore
    · rw [hsplit, walk_append_of_eq_ok hwalk]
      exact walk_of_isIdle hlookup hidleRest
  have hnonempty : path.isEmpty = false := by
    rw [← Bool.not_eq_true, String.isEmpty_iff]
    intro hempty
    simp [hempty, Path.fileName?, Path.steps, Path.names, Text.pieces, Path.isIdle] at hname
  refine locate_eq_ok_iff.mpr ⟨hcheck, hnonempty, ?_⟩
  rw [hnames, walk_append_of_eq_ok hbefore]
  refine walk_cons_eq_ok_iff.mpr ⟨_, step_eq_ok_iff.mpr ⟨hlookup, hsize, ?_⟩, rfl⟩
  rw [next, hidle, if_neg hdots]
  rfl

theorem fromUTF8?_toUTF8 (text : String) : String.fromUTF8? text.toUTF8 = some text := by
  rw [String.fromUTF8?, String.toUTF8_eq_toByteArray]
  exact dif_pos text.isValidUTF8

theorem readText_of_locate {path text : String} {location : Location}
    (hlocate : files.locate path = .ok location)
    (hlookup : files.lookup? location = some (.file text.toUTF8.data)) :
    files.readText path = .ok text := by
  have hbytes : files.readBytes path = .ok text.toUTF8.data := by
    rw [readBytes, hlocate]
    simp [bind, Except.bind, hlookup, pure, Except.pure]
  have htext : String.fromUTF8? ⟨text.toUTF8.data⟩ = some text := fromUTF8?_toUTF8 text
  rw [readText, hbytes]
  simp only [bind, Except.bind, htext]
  rfl

end RegistryBindings.Storage.FileSystem
