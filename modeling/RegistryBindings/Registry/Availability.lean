import RegistryBindings.Registry.Declarations
import Std.Data.ExtTreeSet

/-!
# Availability: from declarations to versions

Each selected feature gives one version, and builds on the features before it: its blocks are applied in
order to the names that were required so far. The requirements of selected extensions are added to each
version, and the next feature does not see them. A version offers the declared commands that are required,
in the order of declaration, and the groups with at least one required member.
-/

namespace RegistryBindings.Registry

/-- The names that are left once a block of that kind has named some. -/
def BlockKind.apply (kind : BlockKind) (named : List String) (names : Std.ExtTreeSet String) :
    Std.ExtTreeSet String :=
  match kind with
  | .require => names.insertMany named
  | .remove => named.foldl .erase names

theorem mem_foldl_erase {named : List String} {names : Std.ExtTreeSet String} {name : String} :
    name ∈ named.foldl .erase names ↔ name ∈ names ∧ name ∉ named := by
  induction named generalizing names with
  | nil => simp
  | cons first named ih =>
    rw [List.foldl_cons, ih, Std.ExtTreeSet.mem_erase, List.mem_cons, not_or, ne_eq,
      Std.LawfulEqCmp.compare_eq_iff_eq, eq_comm (a := first)]
    exact ⟨fun h => ⟨h.1.2, h.1.1, h.2⟩, fun h => ⟨⟨h.2.1, h.1⟩, h.2.2⟩⟩

/-- A block decides about the names in it, and leaves the others as they are. -/
theorem BlockKind.mem_apply {kind : BlockKind} {named : List String} {names : Std.ExtTreeSet String}
    {name : String} :
    name ∈ kind.apply named names ↔ if name ∈ named then kind = .require else name ∈ names := by
  cases kind with
  | require =>
    rw [apply, Std.ExtTreeSet.mem_insertMany_list, List.contains_iff_mem]
    split <;> simp [*]
  | remove =>
    rw [apply, mem_foldl_erase]
    split <;> simp [*]

structure Required where
  enums : Std.ExtTreeSet String := ∅
  commands : Std.ExtTreeSet String := ∅
deriving DecidableEq

namespace Required

def apply (required : Required) (block : InterfaceBlock) : Required where
  enums := block.kind.apply block.enums required.enums
  commands := block.kind.apply block.commands required.commands

def applyAll (required : Required) (blocks : List InterfaceBlock) : Required :=
  blocks.foldl apply required

end Required

namespace Extension

def isSelected (extension : Extension) (selection : Selection) : Bool :=
  selection.includesExtension extension.name && extension.supported.any selection.includesApi

end Extension

/-- Puts the enumerant at the end of the group's members, unless one of its name is there. -/
def enroll (groups : Groups) (membership : String × Enumerant) : Groups :=
  let (name, enumerant) := membership
  let group := (groups.get? name).getD ⟨name, []⟩
  if group.members.any (·.name = enumerant.name) then groups
  else groups.insert { group with members := group.members ++ [enumerant] }

namespace Declarations

/-- The blocks of selected extensions that add to every version. -/
def extensionBlocks (declarations : Declarations) (selection : Selection) : List InterfaceBlock :=
  (declarations.extensions.filter (·.isSelected selection)).flatMap fun extension =>
    extension.blocks.filter fun block => block.kind = .require && block.applies selection

/-- The version that a feature gives under the names required for it. -/
def version (declarations : Declarations) (feature : Feature) (required : Required) : Version where
  api := feature.api
  name := feature.name
  number := feature.number
  groups :=
    (declarations.memberships.filter fun membership =>
      required.enums.contains membership.2.name).foldl enroll ∅
  commands := declarations.commands.toList.filter fun command => required.commands.contains command.name

/-- The versions of the features, of which the first builds on `required`. -/
def versionsFrom (declarations : Declarations) (selection : Selection) (required : Required) :
    List Feature → List Version
  | [] => []
  | feature :: features =>
    let required := required.applyAll (feature.blocks.filter (·.applies selection))
    let extended := required.applyAll (declarations.extensionBlocks selection)
    declarations.version feature extended :: declarations.versionsFrom selection required features

def registry (declarations : Declarations) (selection : Selection) : Registry where
  versions :=
    declarations.versionsFrom selection {}
      (declarations.features.filter fun feature => selection.includesApi feature.api)

end Declarations

end RegistryBindings.Registry
