import RegistryBindings.Proofs.Artifact.EnumBlocks
import RegistryBindings.Proofs.Artifact.LoaderStruct.Listings
import RegistryBindings.Proofs.Artifact.StaticExtension
import RegistryBindings.Proofs.Binding.TypeTable
import RegistryBindings.Proofs.Registry.Edits

/-!
# Two languages, one interface

What the two artifacts of a version say is written down here apart from any language: the blocks with their
members, the signatures of all entry points, and what the loaders assign. Each language is read back into
such a description by its own readers, and for one version both come out the same, since both are that of
the version itself.
-/

namespace RegistryBindings.Artifact

open Binding Text

structure Description where
  blocks : List EnumBlock
  /-- The types that are declared for entry points. -/
  types : List Signature
  /-- The slots with the commands whose types they have. -/
  slots : List (String × String)
  methods : List Method
  /-- What the narrow loader and the full loader assign. -/
  loaders : List (List (String × String))
deriving DecidableEq, Repr

/-- A trampoline as a method. The receiver is not a parameter. -/
def LoaderStruct.method? (trampoline : Trampoline) : Option Method :=
  match trampoline.calls with
  | [(slot, _, arguments)] =>
    (signature? trampoline.name (unmarked ", " trampoline.signature)).map fun signature =>
      ⟨signature, slot, arguments.map (unmarked "r#")⟩
  | _ => none

namespace Description

def ofRust (bindings : Bindings) : Description :=
  let listings := LoaderStruct.Listings.ofText bindings.commands
  { blocks := Target.rust.enumBlocks bindings.enums
    types := listings.aliases.filterMap fun (name, signature) => LoaderStruct.signature? name signature
    slots := listings.slots
    methods := listings.trampolines.filterMap LoaderStruct.method?
    loaders := listings.loaders.map (·.2) }

def ofBeef (bindings : Bindings) : Description :=
  let listings := StaticExtension.Listings.ofText bindings.commands
  { blocks := Target.beef.enumBlocks bindings.enums
    types := listings.types
    slots := listings.fields
    methods := listings.methods
    loaders := listings.loaders.map (·.2) }

def ofBindings : Target → Bindings → Description
  | .rust => ofRust
  | .beef => ofBeef

def ofVersion (version : Registry.Version) (probe : String) : Description where
  blocks := version.groupList.map EnumBlock.ofGroup
  types := version.commands.map (.ofCommand version)
  slots := version.commands.map fun command => (command.name, command.name)
  methods := version.commands.map (.ofCommand version)
  loaders :=
    [if (version.command? probe).isSome then [(probe, probe)] else [],
      version.commands.map fun command => (command.name, command.name)]

end Description

/-! ### Versions that can be read back -/

/-- A token that the table knows, or that is passed on and cannot be taken for anything else. -/
def IsPassable (token : String) : Prop :=
  TypeTable.lookup? token = none →
    (∀ c ∈ ['\n', ',', ':', '(', ')'], c ∉ token.toList) ∧ token ∉ scalarSpellings

instance (token : String) : Decidable (IsPassable token) :=
  inferInstanceAs (Decidable (_ → _))

/-- All names of the version and the configuration are words, and no type is spelled like a scalar that it
is not. -/
structure IsShaped (version : Registry.Version) (config : Config) : Prop where
  space : IsIdentifier config.names.space
  nativeClass : IsIdentifier config.names.nativeClass
  probe : IsIdentifier config.probe
  groups : ∀ group ∈ version.groupList, IsIdentifier group.name ∧ group.name ∉ scalarSpellings
  members : ∀ group ∈ version.groupList, ∀ enumerant ∈ group.members,
    IsIdentifier (memberIdentifier enumerant.shortName)
  commands : ∀ command ∈ version.commands, IsIdentifier command.name
  parameters : ∀ command ∈ version.commands, ∀ parameter ∈ command.parameters, IsIdentifier parameter.name
  types : ∀ command ∈ version.commands, ∀ type ∈ command.returnType :: command.parameters.map (·.type),
    IsPassable type.spelling

variable {version : Registry.Version} {config : Config} {reserved : ReservedWords}
  {command : Registry.Command}

theorem isReadable_of_lookup? {token : String} {type : NativeType}
    (h : TypeTable.lookup? token = some type) : IsReadable type := by
  have hrows : ∀ row ∈ TypeTable.rows, IsReadable row.2 := by decide
  exact TypeTable.of_lookup? (fun row hrow _ _ => hrows row hrow) h

theorem isReadable_ofTypeRef
    (hgroups : ∀ group ∈ version.groupList, IsIdentifier group.name ∧ group.name ∉ scalarSpellings)
    {type : Registry.TypeRef} (h : IsPassable type.spelling) : IsReadable (.ofTypeRef version type) := by
  rw [NativeType.ofTypeRef]
  split
  · split
    · split
      · next hgroup =>
        obtain ⟨found, hfound, rfl⟩ := List.mem_map.mp (Registry.Version.mem_names_groupList.mpr hgroup)
        exact hgroups found hfound
      · trivial
    · trivial
  · rw [NativeType.ofToken]
    split
    · next found hfound => exact isReadable_of_lookup? hfound
    · next hnone =>
      split
      · exact Nat.one_pos
      · next hstar =>
        -- With an asterisk the token would have become an opaque pointer.
        have hbreaks : ∀ c ∈ typeBreaks, c ∉ type.spelling.toList := by
          have hcases : ∀ c ∈ typeBreaks, c ∈ ['\n', ',', ':', '(', ')'] ∨ c = '*' :=
            forall_mem_of_all (by decide)
          intro c hc
          rcases hcases c hc with hbreak | rfl
          · exact (h hnone).1 c hbreak
          · exact fun hmem => hstar (List.contains_iff_mem.mpr hmem)
        exact ⟨hbreaks, (h hnone).2⟩

theorem IsShaped.isLegible (h : IsShaped version config) (hcommand : command ∈ version.commands) :
    IsLegible version command where
  name := h.commands command hcommand
  parameters := h.parameters command hcommand
  types type htype := isReadable_ofTypeRef h.groups (h.types command hcommand type htype)

/-! ### Reading either language -/

theorem enumBlocks_ofVersion (h : IsShaped version config) (target : Target) :
    target.enumBlocks (Bindings.ofVersion version { config with target }).enums =
      version.groupList.map EnumBlock.ofGroup := by
  refine Target.enumBlocks_enums (h.space.not_mem rfl) (List.forall_mem_map.mpr fun group hgroup => ?_)
  exact isBlock_ofGroup (h.groups group hgroup).1 (h.members group hgroup)

theorem unmarked_methodSignature (bound : BoundCommand) :
    unmarked ", " (LoaderStruct.methodSignature bound) = LoaderStruct.signature bound := by
  rw [LoaderStruct.methodSignature, unmarked]
  split
  · next hnil =>
    have hopening : LoaderStruct.signature bound = ")" ++ LoaderStruct.returnSuffix bound := by
      rw [LoaderStruct.signature, hnil, List.map_nil, commaSeparated]
      simp
    have hnone : dropMark? ", " ("" ++ LoaderStruct.signature bound) = none := by
      rw [String.empty_append, hopening]
      exact dropMark?_append_of_differ rfl _
    rw [hnone, Option.getD_none, String.empty_append]
  · rw [dropMark?_append, Option.getD_some]

/-- The trampoline of a command, as it is read from the artifact. -/
theorem method?_trampoline (h : IsLegible version command) (hmark : reserved.mark = "r#") :
    LoaderStruct.method? ⟨command.name,
        LoaderStruct.methodSignature (.ofCommand version reserved command),
        [(command.name, command.name,
          (BoundCommand.ofCommand version reserved command).parameters.map (·.name))]⟩ =
      some (Method.ofCommand version command) := by
  have harguments : ((BoundCommand.ofCommand version reserved command).parameters.map (·.name)).map
      (unmarked "r#") = command.parameters.map (·.name) := by
    simp only [BoundCommand.ofCommand, List.map_map]
    exact List.map_congr_left fun source hsource =>
      LoaderStruct.unmarked_rawEscape (h.parameters source hsource) hmark
  simp only [LoaderStruct.method?, unmarked_methodSignature, LoaderStruct.signature?_signature h hmark,
    Option.map_some, harguments]
  rfl

theorem ofRust_ofVersion (h : IsShaped version config) :
    Description.ofRust (Bindings.ofVersion version { config with target := .rust }) =
      Description.ofVersion version config.probe := by
  let reserved := ({ config with target := .rust } : Config).reserved
  let probe : Probe := ⟨config.probe, (version.command? config.probe).isSome⟩
  let commands := version.commands.map (BoundCommand.ofCommand version reserved)
  have hmark : reserved.mark = "r#" := rfl
  have hwritable : LoaderStruct.AreWritable config.names commands probe := by
    refine ⟨h.space, h.nativeClass, h.probe, List.forall_mem_map.mpr fun command hcommand => ?_⟩
    exact LoaderStruct.isWritable_ofCommand (h.isLegible hcommand) hmark
  have hlistings : LoaderStruct.Listings.ofText
      (Bindings.ofVersion version { config with target := .rust }).commands = .ofCommands commands probe := by
    rw [Bindings.commands_ofVersion]
    exact LoaderStruct.ofText_commands hwritable
  have htypes : (LoaderStruct.Listings.ofCommands commands probe).aliases.filterMap
      (fun (name, signature) => LoaderStruct.signature? name signature) =
        version.commands.map (.ofCommand version) := by
    simp only [LoaderStruct.Listings.ofCommands, commands, List.map_map]
    exact filterMap_map_eq_map fun command hcommand =>
      LoaderStruct.signature?_signature (h.isLegible hcommand) hmark
  have hmethods : (LoaderStruct.Listings.ofCommands commands probe).trampolines.filterMap
      LoaderStruct.method? = version.commands.map (.ofCommand version) := by
    simp only [LoaderStruct.Listings.ofCommands, commands, List.map_map]
    exact filterMap_map_eq_map fun command hcommand => method?_trampoline (h.isLegible hcommand) hmark
  rw [Description.ofRust, hlistings, enumBlocks_ofVersion h, htypes, hmethods]
  simp only [LoaderStruct.Listings.ofCommands, commands, List.map_map]
  rfl

theorem ofBeef_ofVersion (h : IsShaped version config) :
    Description.ofBeef (Bindings.ofVersion version { config with target := .beef }) =
      Description.ofVersion version config.probe := by
  have hlistings : StaticExtension.Listings.ofText
      (Bindings.ofVersion version { config with target := .beef }).commands =
        .ofCommands version version.commands ⟨config.probe, (version.command? config.probe).isSome⟩ := by
    rw [Bindings.commands_ofVersion]
    exact StaticExtension.ofText_commands (h.space.not_mem rfl) (h.nativeClass.not_mem rfl) h.probe
      (fun command hcommand => h.isLegible hcommand) rfl
  rw [Description.ofBeef, hlistings, enumBlocks_ofVersion h]
  rfl

/-- What is read from the artifacts of a version, in the language that the configuration asks for. -/
theorem ofBindings_ofVersion (h : IsShaped version config) :
    Description.ofBindings config.target (Bindings.ofVersion version config) =
      Description.ofVersion version config.probe := by
  have hconfig {target : Target} (htarget : config.target = target) : { config with target } = config := by
    rw [← htarget]
  cases htarget : config.target with
  | rust =>
    have hread := ofRust_ofVersion h
    rwa [hconfig htarget] at hread
  | beef =>
    have hread := ofBeef_ofVersion h
    rwa [hconfig htarget] at hread

/-- Whatever the language, the artifacts of a version say what the version says, and so the artifacts in two
languages say the same: the same blocks with the same members, the same entry points in the same order, with
the same names and types of the same shapes, and loaders that assign the same slots. -/
theorem ofBindings_eq_ofBindings (h : IsShaped version config) :
    Description.ofRust (Bindings.ofVersion version { config with target := .rust }) =
        Description.ofBeef (Bindings.ofVersion version { config with target := .beef }) ∧
      ∀ target, Description.ofBindings target (Bindings.ofVersion version { config with target }) =
        Description.ofVersion version config.probe := by
  refine ⟨(ofRust_ofVersion h).trans (ofBeef_ofVersion h).symm, fun target => ?_⟩
  cases target with
  | rust => exact ofRust_ofVersion h
  | beef => exact ofBeef_ofVersion h

theorem isShaped_small : IsShaped LoaderStruct.smallVersion {} := by
  constructor <;> decide +kernel

theorem ofBindings_small :
    Description.ofRust (Bindings.ofVersion LoaderStruct.smallVersion { target := .rust }) =
        Description.ofBeef (Bindings.ofVersion LoaderStruct.smallVersion { target := .beef }) ∧
      (Description.ofBeef (Bindings.ofVersion LoaderStruct.smallVersion { target := .beef })).types =
        [⟨"glGetString", [("type", .named "StringName")], .pointer (some .uint8) 1⟩,
          ⟨"glFlush", [], .scalar .void⟩] := by
  have hagree := ofBindings_eq_ofBindings isShaped_small
  refine ⟨hagree.1, ?_⟩
  have hbeef := hagree.2 .beef
  rw [Description.ofBindings] at hbeef
  rw [hbeef]
  decide +kernel

end RegistryBindings.Artifact
