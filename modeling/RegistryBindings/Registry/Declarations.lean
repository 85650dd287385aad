import RegistryBindings.Registry.Basic
import RegistryBindings.Registry.Catalog
import RegistryBindings.Registry.Selection

/-!
# Declarations

What a registry document declares, before any version is put together: the enumerants with their groups,
the listings that add members to groups, the commands, and the features and extensions with the blocks
that require or remove names.
-/

namespace RegistryBindings.Registry

structure EnumDeclaration where
  enumerant : Enumerant
  /-- The groups the enumerant belongs to. -/
  groups : List String
  /-- Whether the declaration was made for one interface only. -/
  apiSpecific : Bool
deriving DecidableEq, Repr

/-- A declaration for one interface is not displaced by a general one. -/
instance : CatalogEntry EnumDeclaration where
  name declaration := declaration.enumerant.name
  replaces new old := new.apiSpecific || !old.apiSpecific

/-- The last declaration of a command counts. -/
instance : CatalogEntry Command where
  name command := command.name
  replaces _ _ := true

structure Listing where
  group : String
  members : List String
deriving DecidableEq, Repr

inductive BlockKind where
  | require
  | remove
deriving DecidableEq, Repr

/-- Names that are required or removed together, for all selections or for some. -/
structure InterfaceBlock where
  kind : BlockKind
  profile? : Option String
  api? : Option String
  enums : List String := []
  commands : List String := []
deriving DecidableEq, Repr

namespace InterfaceBlock

def applies (block : InterfaceBlock) (selection : Selection) : Bool :=
  selection.admitsProfile block.profile? && selection.admitsApi block.api?

end InterfaceBlock

structure Feature where
  api : String
  name : String
  number : String
  blocks : List InterfaceBlock
deriving DecidableEq, Repr

structure Extension where
  name : String
  /-- The interfaces that may use the extension. -/
  supported : List String
  blocks : List InterfaceBlock
deriving DecidableEq, Repr

structure Declarations where
  enums : Catalog EnumDeclaration := {}
  listings : List Listing := []
  commands : Catalog Command := {}
  features : List Feature := []
  extensions : List Extension := []

namespace Declarations

/-- Every membership of an enumerant in a group: those that the declarations name, in their order, then
those of the listings. A listed name without a declaration is no member. -/
def memberships (declarations : Declarations) : List (String × Enumerant) :=
  (declarations.enums.toList.flatMap fun declaration =>
    declaration.groups.map fun group => (group, declaration.enumerant)) ++
  (declarations.listings.flatMap fun listing =>
    listing.members.filterMap fun member =>
      (declarations.enums.find? member).map fun declaration => (listing.group, declaration.enumerant))

end Declarations

end RegistryBindings.Registry
