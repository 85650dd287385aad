import Std.Data.ExtTreeMap

/-!
# The registry: versions, groups and commands

What a registry offers to its readers: versions of an interface in document order, each with its groups
of enumerants and its commands. A version keeps its groups in a map by their names, and lists them in the
order of the names.
-/

namespace RegistryBindings.Registry

/-- A named constant. The value is the literal of the registry. -/
structure Enumerant where
  name : String
  shortName : String
  value : String
deriving DecidableEq, Repr, Inhabited

structure Group where
  name : String
  members : List Enumerant
deriving DecidableEq, Repr, Inhabited

/-- A type as the registry spells it, with the group its values come from. -/
structure TypeRef where
  spelling : String
  group? : Option String := none
deriving DecidableEq, Repr, Inhabited

namespace TypeRef

/-- The spelling of the type whose values are enumerants. -/
def enumSpelling : String := "GLenum"

def isEnum (type : TypeRef) : Bool :=
  type.spelling == enumSpelling

end TypeRef

structure Parameter where
  name : String
  type : TypeRef
deriving DecidableEq, Repr, Inhabited

structure Command where
  name : String
  returnType : TypeRef
  parameters : List Parameter := []
deriving DecidableEq, Repr, Inhabited

/-- Groups by name. A group has a name of its own, and stands under that name. -/
structure Groups where
  byName : Std.ExtTreeMap String Group
  name_eq : ∀ (key : String) (group : Group), byName[key]? = some group → group.name = key
deriving DecidableEq

namespace Groups

instance : EmptyCollection Groups where
  emptyCollection := ⟨∅, fun key group h => by rw [Std.ExtTreeMap.getElem?_empty] at h; cases h⟩

def contains (groups : Groups) (name : String) : Bool :=
  groups.byName.contains name

def get? (groups : Groups) (name : String) : Option Group :=
  groups.byName[name]?

/-- The groups in the order of their names. -/
def toList (groups : Groups) : List Group :=
  groups.byName.toList.map (·.2)

/-- Puts the group in place of the one of its name, if there is one. -/
def insert (groups : Groups) (group : Group) : Groups where
  byName := groups.byName.insert group.name group
  name_eq key found h := by
    rw [Std.ExtTreeMap.getElem?_insert] at h
    split at h
    · next hkey =>
      cases h
      exact Std.LawfulEqCmp.eq_of_compare hkey
    · exact groups.name_eq key found h

theorem get?_empty (name : String) : (∅ : Groups).get? name = none :=
  Std.ExtTreeMap.getElem?_empty

theorem get?_insert (groups : Groups) (group : Group) (name : String) :
    (groups.insert group).get? name = if group.name = name then some group else groups.get? name := by
  simp only [get?, insert, Std.ExtTreeMap.getElem?_insert, Std.LawfulEqCmp.compare_eq_iff_eq]

theorem contains_eq_isSome (groups : Groups) (name : String) :
    groups.contains name = (groups.get? name).isSome := by
  rw [contains, get?, Std.ExtTreeMap.contains_eq_isSome_getElem?]

theorem get?_eq_some_iff {groups : Groups} {name : String} {group : Group} :
    groups.get? name = some group ↔ group ∈ groups.toList ∧ group.name = name := by
  have hmem (key : String) : (key, group) ∈ groups.byName.toList ↔ groups.byName[key]? = some group :=
    Std.ExtTreeMap.mem_toList_iff_getElem?_eq_some
  constructor
  · intro h
    exact ⟨List.mem_map_of_mem ((hmem name).mpr h), groups.name_eq name group h⟩
  · rintro ⟨h, rfl⟩
    obtain ⟨⟨key, found⟩, hpair, rfl⟩ := List.mem_map.mp h
    have hfound := (hmem key).mp hpair
    rwa [groups.name_eq key found hfound]

end Groups

structure Version where
  api : String
  name : String
  number : String
  groups : Groups := ∅
  commands : List Command := []
deriving DecidableEq

namespace Version

def hasGroup (version : Version) (name : String) : Bool :=
  version.groups.contains name

def group? (version : Version) (name : String) : Option Group :=
  version.groups.get? name

theorem hasGroup_eq_isSome (version : Version) (name : String) :
    version.hasGroup name = (version.group? name).isSome :=
  version.groups.contains_eq_isSome name

def groupList (version : Version) : List Group :=
  version.groups.toList

def command? (version : Version) (name : String) : Option Command :=
  version.commands.find? (·.name = name)

def addGroup (version : Version) (group : Group) : Version :=
  { version with groups := version.groups.insert group }

def addEnumerant? (version : Version) (name : String) (enumerant : Enumerant) : Option Version :=
  (version.group? name).map fun group =>
    version.addGroup { group with members := group.members ++ [enumerant] }

def addCommand (version : Version) (command : Command) : Version :=
  { version with commands := version.commands ++ [command] }

/-- Appends a parameter to the first command of that name. -/
def addParameter? (version : Version) (command : String) (parameter : Parameter) : Option Version :=
  (version.commands.findIdx? (·.name = command)).map fun position =>
    { version with
      commands := version.commands.modify position fun found =>
        { found with parameters := found.parameters ++ [parameter] } }

end Version

end Registry

/-- The versions of an interface, oldest first. -/
structure Registry where
  versions : List Registry.Version := []
deriving DecidableEq

namespace Registry

def isEmpty (registry : Registry) : Bool :=
  registry.versions.isEmpty

def latest? (registry : Registry) : Option Version :=
  registry.versions.getLast?

/-- The first version with that number or that name. -/
def version? (registry : Registry) (key : String) : Option Version :=
  registry.versions.find? fun version => version.number = key || version.name = key

def addVersion (registry : Registry) (version : Version) : Registry :=
  ⟨registry.versions ++ [version]⟩

def replaceVersion (registry : Registry) (position : Nat) (version : Version) : Registry :=
  ⟨registry.versions.set position version⟩

end Registry

end RegistryBindings
