import RegistryBindings.Artifact.Target

/-!
# Configuration

The settings of a generation: the names to use, the language, the version, the command that is loaded
first, and the words to escape. Names are taken as they are, whatever their shape; the one thing that is
checked is that the narrow loader does not take the name of another method.
-/

namespace RegistryBindings.Artifact

open Binding

inductive VersionSelector where
  | latest
  | exact (key : String)
deriving DecidableEq, Repr

namespace VersionSelector

def select? (selector : VersionSelector) (registry : Registry) : Option Registry.Version :=
  match selector with
  | latest => registry.latest?
  | exact key => registry.version? key

def description : VersionSelector → String
  | latest => "latest"
  | exact key => key

end VersionSelector

inductive GenerationError where
  | versionNotFound (selector : VersionSelector)
  /-- The narrow loader of the probe would be named like a method that every loader has. -/
  | probeTaken (probe loader : String)
deriving DecidableEq, Repr

namespace GenerationError

def message : GenerationError → String
  | versionNotFound selector => "no registry version matches '" ++ selector.description ++ "'"
  | probeTaken probe loader =>
    "invalid configuration: probe command '" ++ probe ++ "' collides with the load_" ++ loader ++ " helper"

end GenerationError

structure Config where
  names : SharedNames := ⟨"gl", "Gl"⟩
  target : Target := .rust
  version : VersionSelector := .latest
  probe : String := "glGetString"
  /-- The words to escape in place of those of the target. -/
  reservedWords? : Option (List String) := none
deriving DecidableEq, Repr

namespace Config

def reserved (config : Config) : ReservedWords where
  words := config.reservedWords?.getD config.target.reservedWords
  mark := config.target.escapeMark

/-- What distinguishes the name of the narrow loader. -/
def loaderName (config : Config) : String :=
  toSnakeCase (withoutApi config.probe)

def takenLoaderNames : List String := ["function", "all_functions"]

def validate (config : Config) : Except GenerationError Unit :=
  if takenLoaderNames.contains config.loaderName then
    .error (.probeTaken config.probe config.loaderName)
  else .ok ()

end Config

end RegistryBindings.Artifact
