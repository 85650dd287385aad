import RegistryBindings.Proofs.Binding.Identifier
import RegistryBindings.Proofs.Storage.FileSystem
import RegistryBindings.Storage.Publishing

/-!
# Two artifacts in one directory

An artifact that is written whole is one entry put in one place, or nothing at all: the temporary file
that it goes through has a name that nothing else has, and leaves no trace. What was put is read back
under the same path, and putting a file of another name does not change that. So the two artifacts of a
target are both there after they are written, unless the native class gives the second the name of the
first, and then only the second is left.
-/

namespace RegistryBindings.Storage

open Artifact Binding

namespace FileSystem

variable {files : FileSystem}

/-- Where the text for a path goes, or why it is not written. -/
def place (files : FileSystem) (path : String) : Except PublishError Location :=
  match Path.fileName? path with
  | none => .error (.noFileName path)
  | some name =>
    match files.staging path name with
    | .error fault => .error (.staging fault)
    | .ok (directory, _) => (files.destination directory path name).mapError .placing

theorem staging_eq_ok {path name temporary : String} {directory : Location}
    (h : files.staging path name = .ok (directory, temporary)) :
    files.directoryOf path = .ok directory ∧
      temporary = freeName (name :: files.entries.keys.flatten) 6 := by
  rw [staging] at h
  cases hcheck : checkPath (Path.join (files.absolutePath (Path.directory path))
      (freeName (name :: files.entries.keys.flatten) 6)) with
  | error fault => simp [hcheck, bind, Except.bind] at h
  | ok _ =>
    cases hdirectory : files.directoryOf path with
    | error fault => simp [hcheck, hdirectory, bind, Except.bind] at h
    | ok found =>
      simp only [hcheck, hdirectory, bind, Except.bind, pure, Except.pure, Except.ok.injEq,
        Prod.mk.injEq] at h
      exact ⟨h.1 ▸ rfl, h.2.symm⟩

/-- The temporary name is not that of the file, and no entry has it. -/
theorem staging_free {path name temporary : String} {directory : Location}
    (h : files.staging path name = .ok (directory, temporary)) :
    temporary ≠ name ∧ files.entries[directory ++ [temporary]]? = none := by
  have hfree := freeName_not_mem (name :: files.entries.keys.flatten) 6
  rw [← (staging_eq_ok h).2, List.mem_cons, not_or] at hfree
  refine ⟨hfree.1, ?_⟩
  apply Std.ExtTreeMap.getElem?_eq_none
  intro hmem
  exact hfree.2 (List.mem_flatten.mpr ⟨_, Std.ExtTreeMap.mem_keys.mpr hmem, by simp⟩)

theorem step_put {location other : Location} {entry : Entry} {name : String} (hne : location ≠ [])
    (hother : location ≠ other) :
    (files.put location entry).step other name = files.step other name := by
  rw [step, step, lookup?_put files hne, if_neg hother]

/-- A file is at home in the directory under its name. -/
theorem next_of_fileName? {path name : String} (hname : Path.fileName? path = some name)
    (directory : Location) : next directory name = directory ++ [name] := by
  rw [Path.fileName?] at hname
  split at hname
  · next last hlast =>
    have hmem := List.mem_filter.mp (List.mem_of_getLast? hlast)
    split at hname
    · cases hname
    · next hdots =>
      cases hname
      rw [next, if_neg (by simpa using hmem.2), if_neg hdots]
  · cases hname

/-- What is staged beside the destination does not stand in its way. -/
theorem destination_put_staged {path name temporary : String} {directory : Location} {entry : Entry}
    (hname : Path.fileName? path = some name) (htemporary : temporary ≠ name) :
    (files.put (directory ++ [temporary]) entry).destination directory path name =
      files.destination directory path name := by
  have hne : directory ++ [temporary] ≠ [] := by simp
  have hstep : (files.put (directory ++ [temporary]) entry).step directory name =
      files.step directory name :=
    step_put hne (by simp)
  rw [destination, destination, hstep]
  cases hlocation : files.step directory name with
  | error fault => rfl
  | ok location =>
    have hhome : location = directory ++ [name] := by
      rw [← (step_eq_ok_iff.mp hlocation).2.2, next_of_fileName? hname]
    have hother : directory ++ [temporary] ≠ location := by
      rw [hhome]
      simpa using htemporary
    simp only [bind, Except.bind, lookup?_put files hne, if_neg hother]

theorem erase_insert_of_free {staged : Location} {entry : Entry}
    (hfree : files.entries[staged]? = none) :
    (files.entries.insert staged entry).erase staged = files.entries := by
  apply Std.ExtTreeMap.ext_getElem?
  intro other
  rw [Std.ExtTreeMap.getElem?_erase, Std.ExtTreeMap.getElem?_insert]
  by_cases hother : staged = other
  · subst hother
    simp [hfree]
  · simp [hother]

/-- A staged file that is moved into place leaves no trace. -/
theorem move_put_staged {staged location : Location} {entry : Entry}
    (hfree : files.entries[staged]? = none) :
    (files.put staged entry).move staged location = files.put location entry := by
  rw [move, put, Std.ExtTreeMap.getElem?_insert_self]
  simp only [remove, put, erase_insert_of_free hfree]

theorem remove_put_staged {staged : Location} {entry : Entry} (hfree : files.entries[staged]? = none) :
    (files.put staged entry).remove staged = files := by
  rw [remove, put, erase_insert_of_free hfree]

end FileSystem

/-! ### Running actions -/

namespace FileAction

variable {ε α β : Type} {files : FileSystem}

theorem run_bind (action : FileAction ε α) (next : α → FileAction ε β) (files : FileSystem) :
    (action >>= next).run.run files =
      match action.run.run files with
      | (.ok value, files') => (next value).run.run files'
      | (.error error, files') => (.error error, files') := by
  rw [ExceptT.run_bind, StateT.run_bind]
  cases hrun : action.run.run files with
  | mk result files' => cases result <;> rfl

theorem run_get_bind (next : FileSystem → FileAction ε β) (files : FileSystem) :
    (get >>= next).run.run files = (next files).run.run files :=
  run_bind get next files

theorem run_modify (change : FileSystem → FileSystem) (files : FileSystem) :
    (modify change : FileAction ε PUnit).run.run files = (.ok (), change files) :=
  rfl

theorem run_modify_bind (change : FileSystem → FileSystem) (next : PUnit → FileAction ε β)
    (files : FileSystem) :
    (modify change >>= next).run.run files = (next ()).run.run (change files) :=
  run_bind (modify change) next files

theorem run_throw (error : ε) (files : FileSystem) :
    (throw error : FileAction ε β).run.run files = (.error error, files) :=
  rfl

end FileAction

/-- A text is written as a whole or not at all. -/
theorem run_writeAtomically (path text : String) (files : FileSystem) :
    (writeAtomically path text).run.run files =
      match files.place path with
      | .error error => (.error error, files)
      | .ok location => (.ok (), files.put location (.file text.toUTF8.data)) := by
  rw [writeAtomically, FileSystem.place]
  cases hname : Path.fileName? path with
  | none => rfl
  | some name =>
    simp only [FileAction.run_get_bind]
    cases hstaging : files.staging path name with
    | error fault => rfl
    | ok staging =>
      obtain ⟨directory, temporary⟩ := staging
      obtain ⟨htemporary, hfree⟩ := FileSystem.staging_free hstaging
      simp only [FileAction.run_modify_bind, FileAction.run_get_bind,
        FileSystem.destination_put_staged hname htemporary]
      cases hdestination : files.destination directory path name with
      | error fault =>
        simp only [FileAction.run_modify_bind, FileAction.run_throw,
          FileSystem.remove_put_staged hfree]
        rfl
      | ok location =>
        simp only [FileAction.run_modify, FileSystem.move_put_staged hfree]
        rfl

/-- Where a text is written there is its path's name in its path's directory, and no directory. -/
theorem FileSystem.place_eq_ok {files : FileSystem} {path : String} {location : Location}
    (h : files.place path = .ok location) :
    ∃ directory name, Path.fileName? path = some name ∧ location = directory ++ [name] ∧
      files.lookup? location ≠ some .directory ∧ files.locate path = .ok location := by
  rw [place] at h
  cases hname : Path.fileName? path with
  | none => simp [hname] at h
  | some name =>
    cases hstaging : files.staging path name with
    | error fault => simp [hname, hstaging] at h
    | ok staging =>
      obtain ⟨directory, temporary⟩ := staging
      have hdestination : files.destination directory path name = .ok location := by
        simp only [hname, hstaging] at h
        cases hfound : files.destination directory path name with
        | error fault => simp [hfound, Except.mapError] at h
        | ok found =>
          rw [hfound] at h
          cases h
          rfl
      rw [destination] at hdestination
      cases hcheck : checkPath path with
      | error fault => simp [hcheck, bind, Except.bind] at hdestination
      | ok _ =>
        cases hstep : files.step directory name with
        | error fault => simp [hcheck, hstep, bind, Except.bind] at hdestination
        | ok found =>
          obtain ⟨-, hsize, hnext⟩ := step_eq_ok_iff.mp hstep
          simp only [hcheck, hstep, bind, Except.bind] at hdestination
          split at hdestination
          · cases hdestination
          · next hbare hfree =>
            cases hdestination
            rw [next_of_fileName? hname] at hnext
            refine ⟨directory, name, rfl, hnext.symm, hfree, ?_⟩
            rw [← hnext]
            exact locate_of_directoryOf hcheck hname hbare (staging_eq_ok hstaging).1 hsize
          all_goals cases hdestination

/-- What a successful write leaves: the whole text in one place that was not a directory's. -/
theorem eq_put_of_run_writeAtomically {path text : String} {files files' : FileSystem}
    (h : (writeAtomically path text).run.run files = (.ok (), files')) :
    ∃ directory name, Path.fileName? path = some name ∧
      files.lookup? (directory ++ [name]) ≠ some .directory ∧
      files.locate path = .ok (directory ++ [name]) ∧
      files' = files.put (directory ++ [name]) (.file text.toUTF8.data) := by
  rw [run_writeAtomically] at h
  cases hplace : files.place path with
  | error error =>
    rw [hplace] at h
    cases h
  | ok location =>
    obtain ⟨directory, name, hname, rfl, hfree, hlocate⟩ := FileSystem.place_eq_ok hplace
    rw [hplace] at h
    cases h
    exact ⟨directory, name, hname, hfree, hlocate, rfl⟩

end RegistryBindings.Storage

namespace RegistryBindings.Artifact

open Binding Storage

/-! ### The names of the two files -/

/-- The native classes whose commands go by the name of the enums. -/
def Target.enumsClasses : Target → List String
  | rust => ["enums", "Enums"]
  | beef => ["Enums"]

theorem Target.commandsFile_eq_enumsFile_iff {target : Target} {nativeClass : String} :
    target.commandsFile nativeClass = target.enumsFile ↔ nativeClass ∈ target.enumsClasses := by
  cases target with
  | rust =>
    have hend : toSnakeCase nativeClass ++ ".rs" = "enums" ++ ".rs" ↔
        toSnakeCase nativeClass = "enums" :=
      String.append_left_inj ".rs"
    simpa [commandsFile, enumsFile, enumsClasses, toSnakeCase_eq_enums_iff] using hend
  | beef =>
    have hend : nativeClass ++ ".bf" = "Enums" ++ ".bf" ↔ nativeClass = "Enums" :=
      String.append_left_inj ".bf"
    simpa [commandsFile, enumsFile, enumsClasses] using hend

/-- A name with an extension of two letters is the name of a file. -/
theorem isIdle_extended (stem : String) {extension : String} (h : extension.toList.length = 3) :
    Path.isIdle (stem ++ extension) = false ∧ stem ++ extension ≠ ".." := by
  have hlength : 2 < (stem ++ extension).toList.length := by
    rw [String.toList_append, List.length_append]
    omega
  have hshort (short : String) (hshort : short.toList.length ≤ 2) : stem ++ extension ≠ short := by
    rintro heq
    rw [heq] at hlength
    omega
  refine ⟨?_, hshort ".." (by decide)⟩
  rw [Path.isIdle, decide_eq_false (hshort "" (by decide)), decide_eq_false (hshort "." (by decide))]
  rfl

theorem Target.fileName?_join_enumsFile (target : Target) (directory : String) :
    Path.fileName? (Path.join directory target.enumsFile) = some target.enumsFile := by
  cases target <;> exact Path.fileName?_join (by decide) (by decide) (by decide)

theorem Target.fileName?_join_commandsFile (target : Target) {nativeClass : String}
    (h : '/' ∉ nativeClass.toList) (directory : String) :
    Path.fileName? (Path.join directory (target.commandsFile nativeClass)) =
      some (target.commandsFile nativeClass) := by
  cases target with
  | rust =>
    have hname := isIdle_extended (toSnakeCase nativeClass) (show ".rs".toList.length = 3 by decide)
    refine Path.fileName?_join ?_ hname.1 hname.2
    simpa [commandsFile] using not_mem_toSnakeCase (by decide) (by decide) h
  | beef =>
    have hname := isIdle_extended nativeClass (show ".bf".toList.length = 3 by decide)
    refine Path.fileName?_join ?_ hname.1 hname.2
    simpa [commandsFile] using h

/-! ### Both artifacts are there -/

namespace Bindings

variable {bindings : Bindings} {files files' : FileSystem} {enumsPath commandsPath : String}

/-- What is written last is there. -/
theorem readText_commands_of_run_writeTo
    (h : (bindings.writeTo enumsPath commandsPath).run.run files = (.ok (), files')) :
    files'.readText commandsPath = .ok bindings.commands := by
  rw [writeTo, FileAction.run_bind] at h
  cases henums : (writeAtomically enumsPath bindings.enums).run.run files with
  | mk result between =>
    rw [henums] at h
    cases result with
    | error error => cases h
    | ok _ =>
      obtain ⟨folder, name, -, hfree, hlocate, rfl⟩ := eq_put_of_run_writeAtomically h
      have hne : folder ++ [name] ≠ [] := by simp
      refine FileSystem.readText_of_locate (FileSystem.locate_put _ hne hfree hlocate) ?_
      rw [FileSystem.lookup?_put _ hne, if_pos rfl]

/-- Writing two texts to files of different names leaves both. -/
theorem readText_of_run_writeTo
    (hname : Path.fileName? enumsPath ≠ Path.fileName? commandsPath)
    (h : (bindings.writeTo enumsPath commandsPath).run.run files = (.ok (), files')) :
    files'.locate enumsPath ≠ files'.locate commandsPath ∧
      files'.readText enumsPath = .ok bindings.enums ∧
        files'.readText commandsPath = .ok bindings.commands := by
  have hcommands := readText_commands_of_run_writeTo h
  rw [writeTo, FileAction.run_bind] at h
  cases henums : (writeAtomically enumsPath bindings.enums).run.run files with
  | mk result between =>
    rw [henums] at h
    cases result with
    | error error => cases h
    | ok _ =>
      obtain ⟨folder, name, hfirst, hfree, hlocate, rfl⟩ := eq_put_of_run_writeAtomically henums
      obtain ⟨folder', name', hsecond, hfree', hlocate', rfl⟩ := eq_put_of_run_writeAtomically h
      have hne : folder ++ [name] ≠ [] := by simp
      have hne' : folder' ++ [name'] ≠ [] := by simp
      have hdistinct : folder' ++ [name'] ≠ folder ++ [name] := by
        intro heq
        have hlast : name' = name := (List.append_inj' heq rfl).2 |> List.singleton_inj.mp
        exact hname (by rw [hfirst, hsecond, hlast])
      let written := Entry.file bindings.commands.toUTF8.data
      -- The second entry is put in another place, so the first path still leads to the first entry.
      have henumsAt := FileSystem.locate_put written hne' hfree'
        (FileSystem.locate_put (.file bindings.enums.toUTF8.data) hne hfree hlocate)
      have hcommandsAt := FileSystem.locate_put written hne' hfree' hlocate'
      refine ⟨?_, FileSystem.readText_of_locate henumsAt ?_, hcommands⟩
      · rw [henumsAt, hcommandsAt]
        exact fun heq => hdistinct (Except.ok.inj heq).symm
      · rw [FileSystem.lookup?_put _ hne', if_neg hdistinct, FileSystem.lookup?_put _ hne, if_pos rfl]

theorem run_writeToDirectory {directory : String} {config : Config}
    (h : (bindings.writeToDirectory directory config).run.run files =
      (.ok (enumsPath, commandsPath), files')) :
    enumsPath = Path.join directory config.target.enumsFile ∧
      commandsPath = Path.join directory (config.target.commandsFile config.names.nativeClass) ∧
        (bindings.writeTo enumsPath commandsPath).run.run files = (.ok (), files') := by
  rw [writeToDirectory, FileAction.run_bind] at h
  cases hwrite : (bindings.writeTo (Path.join directory config.target.enumsFile)
      (Path.join directory (config.target.commandsFile config.names.nativeClass))).run.run files with
  | mk result written =>
    simp only [hwrite] at h
    cases result with
    | error error => cases h
    | ok _ =>
      cases h
      exact ⟨rfl, rfl, hwrite⟩

/-- A native class that makes one file name of the two leaves the commands where the enums should be. -/
theorem readText_of_mem_enumsClasses {directory : String} {config : Config}
    (hclass : config.names.nativeClass ∈ config.target.enumsClasses)
    (h : (bindings.writeToDirectory directory config).run.run files =
      (.ok (enumsPath, commandsPath), files')) :
    enumsPath = commandsPath ∧ files'.readText enumsPath = .ok bindings.commands := by
  obtain ⟨henums, hcommands, hwrite⟩ := run_writeToDirectory h
  have hpaths : enumsPath = commandsPath := by
    rw [henums, hcommands, Target.commandsFile_eq_enumsFile_iff.mpr hclass]
  refine ⟨hpaths, ?_⟩
  rw [hpaths]
  exact readText_commands_of_run_writeTo hwrite

/-- Any other native class gives two files. -/
theorem readText_of_not_mem_enumsClasses {directory : String} {config : Config}
    (hslash : '/' ∉ config.names.nativeClass.toList)
    (hclass : config.names.nativeClass ∉ config.target.enumsClasses)
    (h : (bindings.writeToDirectory directory config).run.run files =
      (.ok (enumsPath, commandsPath), files')) :
    enumsPath ≠ commandsPath ∧ files'.locate enumsPath ≠ files'.locate commandsPath ∧
      files'.readText enumsPath = .ok bindings.enums ∧
        files'.readText commandsPath = .ok bindings.commands := by
  obtain ⟨henums, hcommands, hwrite⟩ := run_writeToDirectory h
  have hname : Path.fileName? enumsPath ≠ Path.fileName? commandsPath := by
    rw [henums, hcommands, Target.fileName?_join_enumsFile, Target.fileName?_join_commandsFile _ hslash]
    intro heq
    exact hclass (Target.commandsFile_eq_enumsFile_iff.mp (Option.some.inj heq).symm)
  exact ⟨fun heq => hname (congrArg _ heq), readText_of_run_writeTo hname hwrite⟩

/-- When the two artifacts are written into a directory, they are two files, and each holds its text, unless the
native class makes one file name of the two. Then that file holds the commands. -/
theorem readText_of_run_writeToDirectory {directory : String} {config : Config}
    (hslash : '/' ∉ config.names.nativeClass.toList)
    (h : (bindings.writeToDirectory directory config).run.run files =
      (.ok (enumsPath, commandsPath), files')) :
    (config.names.nativeClass ∉ config.target.enumsClasses →
      enumsPath ≠ commandsPath ∧ files'.locate enumsPath ≠ files'.locate commandsPath ∧
        files'.readText enumsPath = .ok bindings.enums ∧
          files'.readText commandsPath = .ok bindings.commands) ∧
    (config.names.nativeClass ∈ config.target.enumsClasses →
      enumsPath = commandsPath ∧ files'.readText enumsPath = .ok bindings.commands) :=
  ⟨fun hclass => readText_of_not_mem_enumsClasses hslash hclass h,
    fun hclass => readText_of_mem_enumsClasses hclass h⟩

def writtenAs (nativeClass : String) : Except PublishError (String × String) × FileSystem :=
  (writeToDirectory ⟨"enums", "commands"⟩ "out/.." { names := ⟨"gl", nativeClass⟩ }).run.run
    (FileSystem.empty.put ["work", "out"] .directory)

theorem readText_writtenAs_context :
    (writtenAs "ENums").1 = .ok ("out/../enums.rs", "out/../e_nums.rs") ∧
      (writtenAs "ENums").2.readText "out/../enums.rs" = .ok "enums" ∧
        (writtenAs "ENums").2.readText "out/../e_nums.rs" = .ok "commands" := by
  have hresult : (writtenAs "ENums").1 = .ok ("out/../enums.rs", "out/../e_nums.rs") := by
    decide +kernel
  have hrun : (writeToDirectory ⟨"enums", "commands"⟩ "out/.." { names := ⟨"gl", "ENums"⟩ }).run.run
      (FileSystem.empty.put ["work", "out"] .directory) =
        (.ok ("out/../enums.rs", "out/../e_nums.rs"), (writtenAs "ENums").2) :=
    Prod.ext hresult rfl
  exact ⟨hresult, ((readText_of_run_writeToDirectory (by decide) hrun).1 (by decide)).2.2⟩

/-- With this class only the commands are left, under the one name that both artifacts go by. -/
theorem readText_writtenAs_enums :
    (writtenAs "Enums").1 = .ok ("out/../enums.rs", "out/../enums.rs") ∧
      (writtenAs "Enums").2.readText "out/../enums.rs" = .ok "commands" := by
  have hresult : (writtenAs "Enums").1 = .ok ("out/../enums.rs", "out/../enums.rs") := by
    decide +kernel
  exact ⟨hresult, by decide +kernel⟩

end Bindings

end RegistryBindings.Artifact
