import RegistryBindings.Artifact.Bindings
import RegistryBindings.Storage.FileSystem
import RegistryBindings.Storage.Temporary

/-!
# Publishing bindings

Registries are read from files and bindings are written to files. An artifact is staged in a temporary
file beside its destination and moved into place once it is complete, so that a failure leaves the
destination as it was and no temporary file behind. Of two artifacts the enums are written first, and
stay if the commands fail.
-/

namespace RegistryBindings.Storage

open Artifact

inductive SourceError where
  | file (fault : FileFault)
  | registry (error : Registry.ReadError)
deriving DecidableEq, Repr

inductive PublishError where
  | source (error : SourceError)
  | generation (error : GenerationError)
  | noFileName (path : String)
  /-- The artifact was not staged. -/
  | staging (fault : FileFault)
  /-- The finished artifact was not moved into place. -/
  | placing (fault : FileFault)
deriving DecidableEq, Repr

namespace PublishError

/-- The wording of an error. Faults of the file system are named, not worded. -/
def message : PublishError → String
  | source (.file fault) => "registry file: " ++ fault.name
  | source (.registry error) => (DocumentError.registry error).message
  | generation error => error.message
  | noFileName path => "invalid output path: " ++ path ++ " has no file name"
  | staging fault => "artifact not staged: " ++ fault.name
  | placing fault => "artifact not placed: " ++ fault.name

end PublishError

namespace FileSystem

/-- Where a file of that name is staged for a path: the directory, and a temporary name that neither an
entry nor the file has. -/
def staging (files : FileSystem) (path name : String) : Except FileFault (Location × String) := do
  let temporary := freeName (name :: files.entries.keys.flatten) 6
  checkPath (Path.join (files.absolutePath (Path.directory path)) temporary)
  return (← files.directoryOf path, temporary)

end FileSystem

/-- Writes a text to the file of a path, as a whole or not at all. -/
def writeAtomically (path text : String) : FileAction PublishError Unit := do
  match Path.fileName? path with
  | none => throw (.noFileName path)
  | some name =>
    match (← get).staging path name with
    | .error fault => throw (.staging fault)
    | .ok (directory, temporary) =>
      let staged := directory ++ [temporary]
      modify (·.put staged (.file text.toUTF8.data))
      match (← get).destination directory path name with
      | .error fault => do
        modify (·.remove staged)
        throw (.placing fault)
      | .ok location => modify (·.move staged location)

def readRegistry (path : String) (selection : Registry.Selection) : FileAction SourceError Registry := do
  match (← get).readText path with
  | .error fault => throw (.file fault)
  | .ok text =>
    match Registry.read text selection with
    | .error error => throw (.registry error)
    | .ok registry => return registry

def generate (path : String) (selection : Registry.Selection) (config : Config) :
    FileAction PublishError Bindings := do
  let registry ← (readRegistry path selection).adapt .source
  match Bindings.ofRegistry registry config with
  | .error error => throw (.generation error)
  | .ok bindings => return bindings

end RegistryBindings.Storage

namespace RegistryBindings.Artifact.Bindings

open Storage

def writeTo (bindings : Bindings) (enumsPath commandsPath : String) : FileAction PublishError Unit := do
  writeAtomically enumsPath bindings.enums
  writeAtomically commandsPath bindings.commands

/-- Writes the two artifacts into a directory, under the names of the target, and returns their paths. -/
def writeToDirectory (bindings : Bindings) (directory : String) (config : Config) :
    FileAction PublishError (String × String) := do
  let enumsPath := Path.join directory config.target.enumsFile
  let commandsPath := Path.join directory (config.target.commandsFile config.names.nativeClass)
  bindings.writeTo enumsPath commandsPath
  return (enumsPath, commandsPath)

end RegistryBindings.Artifact.Bindings

namespace RegistryBindings.Storage

open Artifact

def publish (registryPath : String) (selection : Registry.Selection) (config : Config)
    (directory : String) : FileAction PublishError (String × String) := do
  let bindings ← generate registryPath selection config
  bindings.writeToDirectory directory config

end RegistryBindings.Storage
