import Mathlib.Logic.ExistsUnique
import RegistryBindings.Proofs.Storage.Publishing

/-!
# Publishing is all or nothing

Writing two artifacts can end in three ways: both are there, the first path was refused and nothing has
changed, or the second path was refused and only the first artifact is there. Whatever has changed
afterwards is one of the two texts, whole, in a place where there was no directory. Publishing reads before
it writes, so that a registry that yields no bindings leaves everything as it was, and what is written comes
from the registry as it was found, even where it is written over it.
-/

namespace RegistryBindings.Storage

open Artifact

/-- The text is written to the path: `after` is `files` with one entry changed, which was no directory's,
and the path leads to the whole text. -/
structure Written (path text : String) (files after : FileSystem) : Prop where
  run_eq : (writeAtomically path text).run.run files = (.ok (), after)
  exists_location : ∃ location, files.locate path = .ok location ∧
    files.lookup? location ≠ some .directory ∧ after = files.put location (.file text.toUTF8.data)
  readText_eq : after.readText path = .ok text

def Refused (path text : String) (files : FileSystem) (error : PublishError) : Prop :=
  (writeAtomically path text).run.run files = (.error error, files)

inductive WriteOutcome where
  | written
  | enumsRefused
  | commandsRefused
deriving DecidableEq, Repr

/-- What it means that writing the artifacts to the two paths ends in one of the ways: the result, and all
that is left on the file system. -/
def WriteOutcome.Ends (bindings : Bindings) (enumsPath commandsPath : String) (files : FileSystem) :
    WriteOutcome → Prop
  | written => ∃ between after,
      Written enumsPath bindings.enums files between ∧
        Written commandsPath bindings.commands between after ∧
          (bindings.writeTo enumsPath commandsPath).run.run files = (.ok (), after)
  | enumsRefused => ∃ error,
      Refused enumsPath bindings.enums files error ∧
        (bindings.writeTo enumsPath commandsPath).run.run files = (.error error, files)
  | commandsRefused => ∃ error between,
      Written enumsPath bindings.enums files between ∧
        Refused commandsPath bindings.commands between error ∧
          (bindings.writeTo enumsPath commandsPath).run.run files = (.error error, between)

/-- Whatever is not as it was is one of the two artifacts, whole, under its path. -/
def LeavesOnlyArtifacts (bindings : Bindings) (enumsPath commandsPath : String)
    (files after : FileSystem) : Prop :=
  ∀ location, after.lookup? location ≠ files.lookup? location →
    files.lookup? location ≠ some .directory ∧
      (files.locate enumsPath = .ok location ∧
          after.lookup? location = some (.file bindings.enums.toUTF8.data) ∨
        after.locate commandsPath = .ok location ∧
          after.lookup? location = some (.file bindings.commands.toUTF8.data))

/-- How publishing ends: nothing has changed unless there are bindings of the registry as it was found,
which are then written, and after a success the commands are there. -/
structure PublishesAtomically (registryPath : String) (selection : Registry.Selection) (config : Config)
    (directory : String) (files : FileSystem) : Prop where
  unreadable : ∀ fault, files.readText registryPath = .error fault →
    (publish registryPath selection config directory).run.run files = (.error (.source (.file fault)), files)
  unparsed : ∀ text error, files.readText registryPath = .ok text →
    Registry.read text selection = .error error →
      (publish registryPath selection config directory).run.run files =
        (.error (.source (.registry error)), files)
  invalid : ∀ text registry error, files.readText registryPath = .ok text →
    Registry.read text selection = .ok registry → config.validate = .error error →
      (publish registryPath selection config directory).run.run files = (.error (.generation error), files)
  unmatched : ∀ text registry, files.readText registryPath = .ok text →
    Registry.read text selection = .ok registry → config.validate = .ok () →
      config.version.select? registry = none →
        (publish registryPath selection config directory).run.run files =
          (.error (.generation (.versionNotFound config.version)), files)
  generated : ∀ bindings,
    (generate registryPath selection config).run.run files = (.ok bindings, files) →
      (publish registryPath selection config directory).run.run files =
        (bindings.writeToDirectory directory config).run.run files
  published : ∀ enumsPath commandsPath after,
    (publish registryPath selection config directory).run.run files =
      (.ok (enumsPath, commandsPath), after) →
        ∃ bindings, (generate registryPath selection config).run.run files = (.ok bindings, files) ∧
          after.readText commandsPath = .ok bindings.commands

/-! ### One artifact -/

variable {path text : String} {files after : FileSystem}

theorem written_or_refused (path text : String) (files : FileSystem) :
    (∃ after, Written path text files after) ∨ ∃ error, Refused path text files error := by
  have hrun := run_writeAtomically path text files
  cases hplace : files.place path with
  | error error =>
    rw [hplace] at hrun
    exact .inr ⟨error, hrun⟩
  | ok location =>
    rw [hplace] at hrun
    obtain ⟨directory, name, -, hlocation, hfree, hlocate⟩ := FileSystem.place_eq_ok hplace
    have hne : location ≠ [] := by simp [hlocation]
    refine .inl ⟨_, hrun, ⟨location, hlocate, hfree, rfl⟩, ?_⟩
    refine FileSystem.readText_of_locate (FileSystem.locate_put _ hne hfree hlocate) ?_
    rw [FileSystem.lookup?_put _ hne, if_pos rfl]

theorem Written.exists_put (h : Written path text files after) :
    ∃ location, files.locate path = .ok location ∧ after.locate path = .ok location ∧
      files.lookup? location ≠ some .directory ∧
        ∀ other, after.lookup? other =
          if location = other then some (.file text.toUTF8.data) else files.lookup? other := by
  obtain ⟨location, hlocate, hfree, rfl⟩ := h.exists_location
  have hne : location ≠ [] := by
    rintro rfl
    exact hfree (by simp [FileSystem.lookup?])
  exact ⟨location, hlocate, FileSystem.locate_put _ hne hfree hlocate, hfree,
    FileSystem.lookup?_put files hne _⟩

/-! ### Two artifacts -/

variable {bindings : Bindings} {enumsPath commandsPath : String}

theorem exists_ends (bindings : Bindings) (enumsPath commandsPath : String) (files : FileSystem) :
    ∃ outcome : WriteOutcome, outcome.Ends bindings enumsPath commandsPath files := by
  obtain ⟨between, hbetween⟩ | ⟨error, hrefused⟩ := written_or_refused enumsPath bindings.enums files
  · have hrun : (bindings.writeTo enumsPath commandsPath).run.run files =
        (writeAtomically commandsPath bindings.commands).run.run between := by
      rw [Bindings.writeTo, FileAction.run_bind, hbetween.run_eq]
    obtain ⟨after, hafter⟩ | ⟨error, hrefused⟩ :=
      written_or_refused commandsPath bindings.commands between
    · exact ⟨.written, between, after, hbetween, hafter, hrun.trans hafter.run_eq⟩
    · exact ⟨.commandsRefused, error, between, hbetween, hrefused, hrun.trans hrefused⟩
  · refine ⟨.enumsRefused, error, hrefused, ?_⟩
    rw [Bindings.writeTo, FileAction.run_bind, hrefused]

theorem Written.not_refused {error : PublishError} (h : Written path text files after)
    (hrefused : Refused path text files error) : False := by
  have heq := h.run_eq.symm.trans hrefused
  cases heq

/-- The first write tells whether the enums were refused, and the result whether the commands were. -/
theorem eq_of_ends {outcome other : WriteOutcome}
    (h : outcome.Ends bindings enumsPath commandsPath files)
    (hother : other.Ends bindings enumsPath commandsPath files) : outcome = other := by
  match outcome, other, h, hother with
  | .written, .written, _, _ => rfl
  | .enumsRefused, .enumsRefused, _, _ => rfl
  | .commandsRefused, .commandsRefused, _, _ => rfl
  | .written, .enumsRefused, ⟨_, _, hwritten, _⟩, ⟨_, hrefused, _⟩ =>
    exact (hwritten.not_refused hrefused).elim
  | .enumsRefused, .written, ⟨_, hrefused, _⟩, ⟨_, _, hwritten, _⟩ =>
    exact (hwritten.not_refused hrefused).elim
  | .commandsRefused, .enumsRefused, ⟨_, _, hwritten, _⟩, ⟨_, hrefused, _⟩ =>
    exact (hwritten.not_refused hrefused).elim
  | .enumsRefused, .commandsRefused, ⟨_, hrefused, _⟩, ⟨_, _, hwritten, _⟩ =>
    exact (hwritten.not_refused hrefused).elim
  | .written, .commandsRefused, ⟨_, _, _, _, hrun⟩, ⟨_, _, _, _, hfailed⟩ =>
    cases hrun.symm.trans hfailed
  | .commandsRefused, .written, ⟨_, _, _, _, hfailed⟩, ⟨_, _, _, _, hrun⟩ =>
    cases hrun.symm.trans hfailed

/-- The first artifact may be overwritten by the second, but a directory by neither. -/
theorem leavesOnlyArtifacts_of_written {between : FileSystem}
    (henums : Written enumsPath bindings.enums files between)
    (hcommands : Written commandsPath bindings.commands between after) :
    LeavesOnlyArtifacts bindings enumsPath commandsPath files after := by
  obtain ⟨first, hfirst, -, hfree, hlookup⟩ := henums.exists_put
  obtain ⟨second, -, hsecond, hfree', hlookup'⟩ := hcommands.exists_put
  intro location hchanged
  by_cases hat : second = location
  · subst hat
    refine ⟨?_, .inr ⟨hsecond, by rw [hlookup', if_pos rfl]⟩⟩
    by_cases hsame : first = second
    · exact hsame ▸ hfree
    · rwa [hlookup, if_neg hsame] at hfree'
  · rw [hlookup', if_neg hat, hlookup] at hchanged ⊢
    have hat : first = location := by
      by_contra hne
      rw [if_neg hne] at hchanged
      exact hchanged rfl
    subst hat
    exact ⟨hfree, .inl ⟨hfirst, if_pos rfl⟩⟩

theorem leavesOnlyArtifacts_of_commandsRefused
    (henums : Written enumsPath bindings.enums files after) :
    LeavesOnlyArtifacts bindings enumsPath commandsPath files after := by
  obtain ⟨first, hfirst, -, hfree, hlookup⟩ := henums.exists_put
  intro location hchanged
  rw [hlookup] at hchanged ⊢
  have hat : first = location := by
    by_contra hne
    rw [if_neg hne] at hchanged
    exact hchanged rfl
  subst hat
  exact ⟨hfree, .inl ⟨hfirst, if_pos rfl⟩⟩

theorem leavesOnlyArtifacts_of_run {result : Except PublishError Unit}
    (h : (bindings.writeTo enumsPath commandsPath).run.run files = (result, after)) :
    LeavesOnlyArtifacts bindings enumsPath commandsPath files after := by
  obtain ⟨outcome, hends⟩ := exists_ends bindings enumsPath commandsPath files
  cases outcome with
  | written =>
    obtain ⟨between, final, henums, hcommands, hrun⟩ := hends
    rw [h] at hrun
    cases hrun
    exact leavesOnlyArtifacts_of_written henums hcommands
  | enumsRefused =>
    obtain ⟨error, -, hrun⟩ := hends
    rw [h] at hrun
    cases hrun
    exact fun location hchanged => absurd rfl hchanged
  | commandsRefused =>
    obtain ⟨error, between, henums, -, hrun⟩ := hends
    rw [h] at hrun
    cases hrun
    exact leavesOnlyArtifacts_of_commandsRefused henums

/-! ### From a registry file to its artifacts -/

variable {registryPath directory : String} {selection : Registry.Selection} {config : Config}

def FileSystem.generated (files : FileSystem) (path : String) (selection : Registry.Selection)
    (config : Config) : Except PublishError Bindings := do
  let text ← (files.readText path).mapError (.source ∘ .file)
  let registry ← (Registry.read text selection).mapError (.source ∘ .registry)
  (Bindings.ofRegistry registry config).mapError .generation

theorem run_readRegistry (path : String) (selection : Registry.Selection) (files : FileSystem) :
    (readRegistry path selection).run.run files =
      ((files.readText path).mapError .file >>= fun text =>
        (Registry.read text selection).mapError .registry, files) := by
  rw [readRegistry, FileAction.run_get_bind]
  cases htext : files.readText path with
  | error fault => rfl
  | ok text =>
    cases hregistry : Registry.read text selection with
    | error error => simp only [hregistry, Except.mapError, bind, Except.bind]; rfl
    | ok registry => simp only [hregistry, Except.mapError, bind, Except.bind]; rfl

theorem run_adapt {ε ε' α : Type} (f : ε → ε') (action : FileAction ε α) (files : FileSystem) :
    (action.adapt f).run.run files =
      ((action.run.run files).1.mapError f, (action.run.run files).2) :=
  rfl

/-- Generating reads and does not write. -/
theorem run_generate (path : String) (selection : Registry.Selection) (config : Config)
    (files : FileSystem) :
    (generate path selection config).run.run files = (files.generated path selection config, files) := by
  rw [generate, FileAction.run_bind, run_adapt, run_readRegistry, FileSystem.generated]
  cases files.readText path with
  | error fault => rfl
  | ok text =>
    cases hregistry : Registry.read text selection with
    | error error => simp [hregistry, Except.mapError, bind, Except.bind]
    | ok registry =>
      cases hbindings : Bindings.ofRegistry registry config with
      | error error =>
        simp only [hregistry, hbindings, Except.mapError, bind, Except.bind, FileAction.run_throw]
      | ok bindings =>
        simp only [hregistry, hbindings, Except.mapError, bind, Except.bind]
        rfl

theorem run_publish (registryPath : String) (selection : Registry.Selection) (config : Config)
    (directory : String) (files : FileSystem) :
    (publish registryPath selection config directory).run.run files =
      match files.generated registryPath selection config with
      | .error error => (.error error, files)
      | .ok bindings => (bindings.writeToDirectory directory config).run.run files := by
  rw [publish, FileAction.run_bind, run_generate]
  cases files.generated registryPath selection config with
  | error error => rfl
  | ok bindings => rfl

theorem publishesAtomically (registryPath : String) (selection : Registry.Selection) (config : Config)
    (directory : String) (files : FileSystem) :
    PublishesAtomically registryPath selection config directory files where
  unreadable fault htext := by
    rw [run_publish, FileSystem.generated, htext]
    rfl
  unparsed text error htext hregistry := by
    have hgenerated : files.generated registryPath selection config =
        .error (.source (.registry error)) := by
      simp [FileSystem.generated, htext, hregistry, Except.mapError, bind, Except.bind]
    rw [run_publish, hgenerated]
  invalid text registry error htext hregistry hinvalid := by
    have hgenerated : files.generated registryPath selection config = .error (.generation error) := by
      simp [FileSystem.generated, Bindings.ofRegistry, htext, hregistry, hinvalid, Except.mapError,
        bind, Except.bind]
    rw [run_publish, hgenerated]
  unmatched text registry htext hregistry hvalid hselect := by
    have hgenerated : files.generated registryPath selection config =
        .error (.generation (.versionNotFound config.version)) := by
      simp [FileSystem.generated, Bindings.ofRegistry, htext, hregistry, hvalid, hselect,
        Except.mapError, bind, Except.bind, throw, throwThe, MonadExceptOf.throw]
    rw [run_publish, hgenerated]
  generated bindings hbindings := by
    rw [run_generate, Prod.mk.injEq] at hbindings
    rw [run_publish, hbindings.1]
  published enumsPath commandsPath after hrun := by
    rw [run_publish] at hrun
    cases hgenerated : files.generated registryPath selection config with
    | error error =>
      rw [hgenerated] at hrun
      cases hrun
    | ok bindings =>
      rw [hgenerated] at hrun
      obtain ⟨-, -, hwrite⟩ := Bindings.run_writeToDirectory hrun
      refine ⟨bindings, ?_, Bindings.readText_commands_of_run_writeTo hwrite⟩
      rw [run_generate, hgenerated]

/-- Whatever the file system and the paths are, writing two artifacts ends in exactly one of the three
ways and leaves nothing else behind, and publishing writes only bindings of the registry as it was
found. -/
theorem publishing_atomic (files : FileSystem) :
    (∀ (bindings : Bindings) (enumsPath commandsPath : String),
      (∃! outcome : WriteOutcome, outcome.Ends bindings enumsPath commandsPath files) ∧
        LeavesOnlyArtifacts bindings enumsPath commandsPath files
          ((bindings.writeTo enumsPath commandsPath).run.run files).2) ∧
    ∀ (registryPath : String) (selection : Registry.Selection) (config : Config) (directory : String),
      PublishesAtomically registryPath selection config directory files := by
  refine ⟨fun bindings enumsPath commandsPath => ⟨?_, leavesOnlyArtifacts_of_run rfl⟩, ?_⟩
  · obtain ⟨outcome, hends⟩ := exists_ends bindings enumsPath commandsPath files
    exact ⟨outcome, hends, fun other hother => eq_of_ends hother hends⟩
  · intro registryPath selection config directory
    exact publishesAtomically registryPath selection config directory files

end RegistryBindings.Storage
