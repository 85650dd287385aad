import RegistryBindings.Binding.Identifier
import RegistryBindings.Binding.Literal
import RegistryBindings.Binding.TypeTable

/-!
# The interface to bind

What the bindings of one version consist of, before it is written in any language: enum blocks in the
order of their names, commands with resolved types and usable parameter names, and the command that is
loaded first to find out whether loading works.
-/

namespace RegistryBindings.Binding

structure EnumMember where
  identifier : String
  value : String
deriving DecidableEq, Repr

structure EnumBlock where
  name : String
  members : List EnumMember
deriving DecidableEq, Repr

structure BoundParameter where
  name : String
  type : NativeType
deriving DecidableEq, Repr

structure BoundCommand where
  name : String
  returnType : NativeType
  parameters : List BoundParameter
deriving DecidableEq, Repr

/-- The command that the narrow loader binds, if the version has it. -/
structure Probe where
  name : String
  present : Bool
deriving DecidableEq, Repr

structure Interface where
  blocks : List EnumBlock
  commands : List BoundCommand
  probe : Probe
deriving DecidableEq, Repr

namespace EnumBlock

/-- The block of a group. It leaves out the enumerants that do not fit in a word. -/
def ofGroup (group : Registry.Group) : EnumBlock where
  name := group.name
  members :=
    (group.members.filter fun enumerant => fitsWord enumerant.value).map fun enumerant =>
      ⟨memberIdentifier enumerant.shortName, enumerant.value⟩

end EnumBlock

namespace BoundCommand

def ofCommand (version : Registry.Version) (reserved : ReservedWords) (command : Registry.Command) :
    BoundCommand where
  name := command.name
  returnType := .ofTypeRef version command.returnType
  parameters :=
    command.parameters.map fun parameter =>
      ⟨reserved.escape parameter.name, .ofTypeRef version parameter.type⟩

end BoundCommand

namespace Interface

def ofVersion (version : Registry.Version) (reserved : ReservedWords) (probe : String) : Interface where
  blocks := version.groupList.map EnumBlock.ofGroup
  commands := version.commands.map (BoundCommand.ofCommand version reserved)
  probe := ⟨probe, (version.command? probe).isSome⟩

end Interface

end RegistryBindings.Binding
