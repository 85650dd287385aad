import RegistryBindings.Artifact.Config
import RegistryBindings.Registry.Reading

/-!
# Bindings

The two texts that are generated for one version of a registry. They depend on the version and the
configuration alone.
-/

namespace RegistryBindings.Artifact

open Binding

structure Bindings where
  enums : String
  commands : String
deriving DecidableEq, Repr

namespace Bindings

def ofInterface (target : Target) (names : SharedNames) (interface : Interface) : Bindings where
  enums := unlines (target.enums names interface.blocks)
  commands := unlines (target.commands names interface.commands interface.probe)

/-- The bindings of a version, whatever version the configuration asks for. -/
def ofVersion (version : Registry.Version) (config : Config) : Bindings :=
  ofInterface config.target config.names (Interface.ofVersion version config.reserved config.probe)

theorem commands_ofVersion (version : Registry.Version) (config : Config) :
    (ofVersion version config).commands =
      unlines (config.target.commands config.names
        (Interface.ofVersion version config.reserved config.probe).commands
        (Interface.ofVersion version config.reserved config.probe).probe) :=
  rfl

def ofRegistry (registry : Registry) (config : Config) : Except GenerationError Bindings := do
  config.validate
  match config.version.select? registry with
  | some version => return ofVersion version config
  | none => throw (.versionNotFound config.version)

end Bindings

inductive DocumentError where
  | registry (error : Registry.ReadError)
  | generation (error : GenerationError)
deriving DecidableEq, Repr

namespace DocumentError

def message : DocumentError → String
  | registry error => "registry parse error: " ++ error.message
  | generation error => error.message

end DocumentError

namespace Bindings

/-- The bindings of a registry document. The document is read before the configuration is looked at. -/
def ofDocument (text : String) (selection : Registry.Selection) (config : Config) :
    Except DocumentError Bindings := do
  let registry ← (Registry.read text selection).mapError .registry
  (ofRegistry registry config).mapError .generation

end Bindings

end RegistryBindings.Artifact
