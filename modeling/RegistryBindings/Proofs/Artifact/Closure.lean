import RegistryBindings.Proofs.Artifact.Bindings
import RegistryBindings.Proofs.Artifact.BlockLines
import RegistryBindings.Proofs.Artifact.Description
import RegistryBindings.Proofs.Artifact.Indirection
import RegistryBindings.Proofs.Artifact.ParameterNames
import RegistryBindings.Proofs.Markup.Writing
import RegistryBindings.Proofs.Registry.Membership

/-!
# Closed over enum types

The two texts come from two walks. One prints a block for every group of the version, and the other asks whether the
version has a group when it spells a type. So what the second text names is declared in the first one, and once.

That is said here of the lines of the two texts, whatever characters their names have: of the lines that begin blocks,
and of the lines in which a command is declared with its types. Where the names are on one line the lines are the
text's own, and where they are words the readers of the two languages find the same blocks and the same types.
-/

namespace RegistryBindings.Artifact

open Binding Markup Registry Text

/-! ### What is seen in the texts -/

namespace Target

def unsignedWord : Target → String
  | rust => "u32"
  | beef => "uint32"

def returnedText (target : Target) (type : NativeType) : String :=
  match target with
  | rust => if type = .scalar .void then "" else " -> " ++ Target.rust.spell type
  | beef => Target.beef.spell type

/-- The text declares the command with these types, in the alias of its type and in its method. -/
def DeclaresWith (target : Target) (text name : String) (returned : NativeType) (types : List NativeType) : Prop :=
  ∃ names : List String, names.length = types.length ∧
    ∀ line ∈ target.parameterLines name (target.returnedText returned)
      (List.zipWith target.parameterItem names (types.map target.spell)) names, HasLine text line

end Target

/-- The names are those of the groups that are there, each once. -/
structure Lists (names : List String) (isThere : String → Prop) : Prop where
  nodup : names.Nodup
  mem_iff : ∀ name, name ∈ names ↔ isThere name

def IsEmptied (group : Group) : Prop :=
  ∀ enumerant ∈ group.members, fitsWord enumerant.value = false

/-- The lines begin a block for each group that is there. A group that keeps no member is declared all the same. -/
structure ShowsGroups (target : Target) (version : Registry.Version) (isThere : String → Prop) (shown : List String) :
    Prop where
  names : Lists (shown.filterMap target.blockName?) isThere
  emptied : ∀ group ∈ version.groupList, IsEmptied group → target.emptyBlock group.name <:+: shown

/-- A reference to a group that is there is spelled as the group's name. Any other reference to an enum is a number,
whatever group it was meant for. -/
structure IsSpelled (target : Target) (isThere : String → Prop) (type : TypeRef) (spelled : NativeType) : Prop where
  named : type.spelling = "GLenum" → ∀ group ∈ type.group?, isThere group → target.spell spelled = group
  unnamed : type.spelling = "GLenum" → (∀ group ∈ type.group?, ¬ isThere group) →
    target.spell spelled = target.unsignedWord
  isThere : ∀ group, spelled = .enum group →
    type.spelling = "GLenum" ∧ type.group? = some group ∧ isThere group
  other : type.spelling ≠ "GLenum" → spelled = .ofToken type.spelling

/-- The same of the shape that a spelling has. Only a token that is passed on may be named otherwise. -/
structure IsRead (isThere : String → Prop) (type : TypeRef) (shape : TypeShape) : Prop where
  named : type.spelling = "GLenum" → ∀ group ∈ type.group?, isThere group → shape = .named group
  unnamed : type.spelling = "GLenum" → (∀ group ∈ type.group?, ¬ isThere group) → shape = .scalar .uint32
  isThere : ∀ name, shape = .named name → isThere name ∨ (type.spelling ≠ "GLenum" ∧ name = type.spelling)

def IsReadSignature (isThere : String → Prop) (command : Command) (signature : Signature) : Prop :=
  signature.name = command.name ∧
    List.Forall₂ (IsRead isThere) command.typeRefs (signature.returned :: signature.parameters.map (·.2))

/-- What the readers of the language find in the two texts. -/
structure IsReadClosed (target : Target) (version : Registry.Version) (isThere : String → Prop)
    (bindings : Bindings) : Prop where
  names : Lists ((target.enumBlocks bindings.enums).map (·.name)) isThere
  emptied : ∀ group ∈ version.groupList, IsEmptied group → ⟨group.name, []⟩ ∈ target.enumBlocks bindings.enums
  types : List.Forall₂ (IsReadSignature isThere) version.commands (Description.ofBindings target bindings).types
  methods : List.Forall₂ (IsReadSignature isThere) version.commands
    ((Description.ofBindings target bindings).methods.map (·.signature))

structure IsOnLines (names : SharedNames) (version : Registry.Version) : Prop where
  space : '\n' ∉ names.space.toList
  groups : ∀ group ∈ version.groupList, '\n' ∉ group.name.toList
  members : ∀ group ∈ version.groupList, ∀ enumerant ∈ group.members, '\n' ∉ enumerant.shortName.toList

/-- The types of the commands are spelled as enums only where the enums declare them, and declare them once. -/
structure IsClosed (config : Config) (version : Registry.Version) (isThere : String → Prop) (bindings : Bindings) :
    Prop where
  enums : ∃ shown, bindings.enums = unlines shown ∧ ShowsGroups config.target version isThere shown ∧
    (IsOnLines config.names version → lines bindings.enums = shown)
  commands : ∀ command ∈ version.commands, ∃ returned types,
    config.target.DeclaresWith bindings.commands command.name returned types ∧
      List.Forall₂ (IsSpelled config.target isThere) command.typeRefs (returned :: types)
  read : IsShaped version config → IsReadClosed config.target version isThere bindings

/-! ### The enums of a version -/

variable {config : Config} {version : Registry.Version} {isThere : String → Prop} {group : Group}

theorem lists_names (h : ∀ group, version.hasGroup group = true ↔ isThere group) :
    Lists (version.groupList.map (·.name)) isThere where
  nodup := version.nodup_names_groupList
  mem_iff group := Version.mem_names_groupList.trans (h group)

theorem names_blocks (version : Registry.Version) :
    (version.groupList.map EnumBlock.ofGroup).map (·.name) = version.groupList.map (·.name) :=
  List.map_map

theorem mem_blocks_of_isEmptied (hgroup : group ∈ version.groupList) (h : IsEmptied group) :
    ⟨group.name, []⟩ ∈ version.groupList.map EnumBlock.ofGroup := by
  have hblock : EnumBlock.ofGroup group = ⟨group.name, []⟩ := by
    have hnone : group.members.filter (fun enumerant => fitsWord enumerant.value) = [] :=
      List.filter_eq_nil_iff.mpr fun enumerant henumerant => by simp [h enumerant henumerant]
    rw [EnumBlock.ofGroup, hnone, List.map_nil]
  rw [← hblock]
  exact List.mem_map_of_mem hgroup

theorem showsGroups_enums (target : Target) (names : SharedNames)
    (h : ∀ group, version.hasGroup group = true ↔ isThere group) :
    ShowsGroups target version isThere (target.enums names (version.groupList.map .ofGroup)) where
  names := by
    rw [target.blockNames_enums, names_blocks]
    exact lists_names h
  emptied group hgroup hemptied := target.emptyBlock_infix_enums names (mem_blocks_of_isEmptied hgroup hemptied)

theorem newline_not_mem_memberIdentifier {shortName : String} (h : '\n' ∉ shortName.toList) :
    '\n' ∉ (memberIdentifier shortName).toList := by
  rw [memberIdentifier]
  split
  · split
    · simp [h]
    · exact h
  · exact h

theorem lines_enums_of_isOnLines (h : IsOnLines config.names version) :
    lines (Bindings.ofVersion version config).enums =
      config.target.enums config.names (version.groupList.map .ofGroup) := by
  refine lines_unlines (Target.newline_not_mem_enums h.space (List.forall_mem_map.mpr fun group hgroup => ?_))
  refine ⟨h.groups group hgroup, List.forall_mem_map.mpr fun enumerant henumerant => ?_⟩
  obtain ⟨hmem, hfits⟩ := List.mem_filter.mp henumerant
  exact ⟨newline_not_mem_memberIdentifier (h.members group hgroup enumerant hmem), not_mem_of_fitsWord hfits⟩

/-! ### The types of a version's commands -/

theorem refersToGroup_iff (h : ∀ group, version.hasGroup group = true ↔ isThere group) {type : TypeRef}
    {name : String} :
    RefersToGroup version type name ↔ type.spelling = "GLenum" ∧ type.group? = some name ∧ isThere name := by
  rw [RefersToGroup, h]

/-- An enum that refers to no group is what its token means, which is a word of 32 bits. -/
theorem ofTypeRef_of_not_isThere (h : ∀ group, version.hasGroup group = true ↔ isThere group) {type : TypeRef}
    (htype : type.spelling = "GLenum") (hgone : ∀ group ∈ type.group?, ¬ isThere group) :
    NativeType.ofTypeRef version type = .scalar .uint32 := by
  have hnot : ∀ group, ¬ RefersToGroup version type group := fun group hrefers =>
    hgone group hrefers.2.1 ((h group).mp hrefers.2.2)
  rw [ofTypeRef_of_not_refersToGroup hnot, htype, NativeType.ofToken_enumSpelling]

theorem isSpelled_ofTypeRef (target : Target) (h : ∀ group, version.hasGroup group = true ↔ isThere group)
    (type : TypeRef) : IsSpelled target isThere type (.ofTypeRef version type) where
  named htype group hgroup hthere := by
    rw [ofTypeRef_of_refersToGroup ((refersToGroup_iff h).mpr ⟨htype, hgroup, hthere⟩)]
    cases target <;> rfl
  unnamed htype hgone := by
    rw [ofTypeRef_of_not_isThere h htype hgone]
    cases target <;> rfl
  isThere group hgroup := (refersToGroup_iff h).mp (refersToGroup_of_ofTypeRef hgroup)
  other htype := ofTypeRef_of_not_refersToGroup fun group hrefers => htype hrefers.1

theorem isRead_ofTypeRef (h : ∀ group, version.hasGroup group = true ↔ isThere group) (type : TypeRef) :
    IsRead isThere type (TypeShape.ofType (.ofTypeRef version type)) where
  named htype group hgroup hthere := by
    rw [ofTypeRef_of_refersToGroup ((refersToGroup_iff h).mpr ⟨htype, hgroup, hthere⟩)]
    rfl
  unnamed htype hgone := by
    rw [ofTypeRef_of_not_isThere h htype hgone]
    rfl
  isThere name hname := by
    by_cases hrefers : ∃ group, RefersToGroup version type group
    · obtain ⟨group, hgroup⟩ := hrefers
      rw [ofTypeRef_of_refersToGroup hgroup] at hname
      cases hname
      exact .inl ((h name).mp hgroup.2.2)
    · rw [ofTypeRef_of_not_refersToGroup (not_exists.mp hrefers)] at hname
      rcases NativeType.ofToken_cases type.spelling with
        ⟨scalar, hmeans⟩ | ⟨pointee, mutability, depth, hmeans⟩ | hmeans
      · rw [hmeans] at hname
        cases hname
      · rw [hmeans] at hname
        cases hname
      · rw [hmeans] at hname
        cases hname
        refine .inr ⟨fun htype => ?_, rfl⟩
        rw [htype, NativeType.ofToken_enumSpelling] at hmeans
        cases hmeans

theorem returned_eq_returnedText (target : Target) (bound : BoundCommand) :
    target.returned bound = target.returnedText bound.returnType := by
  cases target with
  | rust =>
    simp only [Target.returned, LoaderStruct.returnSuffix, NativeType.isVoid, Target.returnedText,
      decide_eq_true_eq]
    rfl
  | beef => rfl

/-- The commands of the text have the types that the references of the version's commands mean. -/
theorem declaresWith_ofVersion (version : Registry.Version) (config : Config) {command : Command}
    (hcommand : command ∈ version.commands) :
    config.target.DeclaresWith (Bindings.ofVersion version config).commands command.name
      (.ofTypeRef version command.returnType)
      (command.parameters.map fun parameter => .ofTypeRef version parameter.type) := by
  let bound := BoundCommand.ofCommand version config.reserved command
  have hbound : bound ∈ (Interface.ofVersion version config.reserved config.probe).commands :=
    List.mem_map_of_mem hcommand
  have htypes : bound.parameters.map (fun parameter => config.target.spell parameter.type) =
      (command.parameters.map fun parameter => .ofTypeRef version parameter.type).map config.target.spell := by
    simp [bound, BoundCommand.ofCommand]
  refine ⟨bound.parameters.map (·.name), by simp [bound, BoundCommand.ofCommand], fun line hline => ?_⟩
  have hreturned : config.target.returnedText (.ofTypeRef version command.returnType) = config.target.returned bound :=
    (returned_eq_returnedText config.target bound).symm
  rw [← htypes, hreturned] at hline
  rw [Bindings.commands_ofVersion]
  exact hasLine_unlines (config.target.mem_commands_of_mem_parameterLines config.names _ hbound line hline)

/-! ### The readers -/

theorem isReadSignature_ofCommand (h : ∀ group, version.hasGroup group = true ↔ isThere group) (command : Command) :
    IsReadSignature isThere command (.ofCommand version command) := by
  refine ⟨rfl, .cons (isRead_ofTypeRef h command.returnType) ?_⟩
  simp only [Signature.ofCommand, List.map_map, List.forall₂_map_left_iff, List.forall₂_map_right_iff,
    List.forall₂_same]
  exact fun parameter _ => isRead_ofTypeRef h parameter.type

theorem isReadClosed_ofVersion (h : ∀ group, version.hasGroup group = true ↔ isThere group)
    (hshaped : IsShaped version config) :
    IsReadClosed config.target version isThere (Bindings.ofVersion version config) := by
  have hread := ofBindings_ofVersion hshaped
  have hblocks : config.target.enumBlocks (Bindings.ofVersion version config).enums =
      version.groupList.map EnumBlock.ofGroup := enumBlocks_ofVersion hshaped config.target
  have hsignatures : List.Forall₂ (IsReadSignature isThere) version.commands
      (version.commands.map (Signature.ofCommand version)) :=
    List.forall₂_map_right_iff.mpr (List.forall₂_same.mpr fun command _ => isReadSignature_ofCommand h command)
  refine ⟨?_, fun group hgroup hemptied => ?_, ?_, ?_⟩
  · rw [hblocks, names_blocks]
    exact lists_names h
  · rw [hblocks]
    exact mem_blocks_of_isEmptied hgroup hemptied
  · rw [hread]
    exact hsignatures
  · rw [hread, Description.ofVersion, List.map_map]
    exact hsignatures

theorem isClosed_ofVersion (config : Config) (h : ∀ group, version.hasGroup group = true ↔ isThere group) :
    IsClosed config version isThere (Bindings.ofVersion version config) where
  enums := ⟨_, rfl, showsGroups_enums config.target config.names h, lines_enums_of_isOnLines⟩
  commands command hcommand := by
    refine ⟨_, _, declaresWith_ofVersion version config hcommand, ?_⟩
    refine .cons (isSpelled_ofTypeRef config.target h command.returnType) ?_
    simp only [List.forall₂_map_left_iff, List.forall₂_map_right_iff, List.forall₂_same]
    exact fun parameter _ => isSpelled_ofTypeRef config.target h parameter.type
  read := isReadClosed_ofVersion h

/-! ### Bindings of documents -/

/-- A document's groups: those that a declared enumerant, required in the version, belongs to. -/
def HasRequiredMember (declarations : Declarations) (selection : Selection) (position : Nat) (group : String) : Prop :=
  ∃ declaration ∈ declarations.enums.toList,
    declarations.Requires selection (·.enums) (position + 1) declaration.enumerant.name ∧
      declarations.Belongs declaration group

def AreClosed (declarations : Declarations) (selection : Selection) (config : Config) (bindings : Bindings) : Prop :=
  ∃ position version, (declarations.registry selection).versions[position]? = some version ∧
    config.version.select? (declarations.registry selection) = some version ∧
    IsClosed config version (HasRequiredMember declarations selection position) bindings

theorem areClosed_of_ofDocument {text : String} {selection : Selection} {bindings : Bindings}
    (h : Bindings.ofDocument text selection config = .ok bindings) :
    ∃ declarations, readDeclarations selection (Content.ofText text) = .ok declarations ∧
      AreClosed declarations selection config bindings := by
  obtain ⟨declarations, version, hread, hselect, rfl⟩ := exists_version_of_ofDocument h
  obtain ⟨position, hposition⟩ := List.mem_iff_getElem?.mp (mem_versions_of_select? hselect)
  exact ⟨declarations, hread, position, version, hposition, hselect,
    isClosed_ofVersion config (Declarations.hasGroup_of_mem_versions hposition)⟩

/-- Bindings are closed over enum types, whether the version is read from a document or made by edits. -/
theorem areClosed_bindings :
    (∀ text selection config bindings, Bindings.ofDocument text selection config = .ok bindings →
      ∃ declarations, readDeclarations selection (Content.ofText text) = .ok declarations ∧
        AreClosed declarations selection config bindings) ∧
    ∀ (api name number : String) (edits : List Version.Edit) (config : Config),
      IsClosed config (Version.ofEdits api name number edits) (Version.AddedBy edits)
        (Bindings.ofVersion (Version.ofEdits api name number edits) config) := by
  refine ⟨fun text selection config bindings => areClosed_of_ofDocument, fun api name number edits config => ?_⟩
  exact isClosed_ofVersion config fun group => Version.hasGroup_ofEdits edits

def switchParameter (group name : String) (next : Content) : Content :=
  .element ⟨"param", [⟨"group", group⟩]⟩
    (.element ⟨"ptype", []⟩ (.text "GLenum".toList .done)
      (.element ⟨"name", []⟩ (.text name.toList .done) .done)) next

/-- A command that takes a value of a group, and one of a group without declarations. The other group that is
declared has one member, which does not fit in a word. -/
def switchDocument : Content :=
  .element ⟨"registry", []⟩
    (.element ⟨"enums", []⟩
      (.void ⟨"enum", [⟨"name", "GL_ON"⟩, ⟨"value", "1"⟩, ⟨"group", "Mode"⟩]⟩
        (.void ⟨"enum", [⟨"name", "GL_WIDE"⟩, ⟨"value", "0x1FFFFFFFF"⟩, ⟨"group", "Wide"⟩]⟩ .done))
      (.element ⟨"commands", []⟩
        (.element ⟨"command", []⟩
          (.element ⟨"proto", []⟩
            (.text "void ".toList (.element ⟨"name", []⟩ (.text "glSwitch".toList .done) .done))
            (switchParameter "Mode" "mode" (switchParameter "Gone" "other" .done))) .done)
        (.element ⟨"feature", [⟨"api", "gl"⟩, ⟨"name", "GL_VERSION_1_0"⟩, ⟨"number", "1.0"⟩]⟩
          (.element ⟨"require", []⟩
            (.void ⟨"enum", [⟨"name", "GL_ON"⟩]⟩
              (.void ⟨"enum", [⟨"name", "GL_WIDE"⟩]⟩
                (.void ⟨"command", [⟨"name", "glSwitch"⟩]⟩ .done))) .done) .done))) .done

def switchVersion : Registry.Version :=
  (({ api := "gl", name := "GL_VERSION_1_0", number := "1.0",
      commands := [⟨"glSwitch", ⟨"void", none⟩,
        [⟨"mode", ⟨"GLenum", some "Mode"⟩⟩, ⟨"other", ⟨"GLenum", some "Gone"⟩⟩]⟩] } :
    Registry.Version).addGroup ⟨"Mode", [⟨"GL_ON", "ON", "1"⟩]⟩).addGroup
      ⟨"Wide", [⟨"GL_WIDE", "WIDE", "0x1FFFFFFFF"⟩]⟩

theorem isShaped_switch : IsShaped switchVersion {} := by
  constructor <;> decide +kernel

theorem read_switchDocument : Registry.read (String.ofList switchDocument.write) {} = .ok ⟨[switchVersion]⟩ := by
  have hplain : switchDocument.Plain := by decide
  rw [Registry.read, ofText_write_content hplain rfl]
  decide +kernel

theorem areClosed_switch :
    ∃ bindings declarations,
      Bindings.ofDocument (String.ofList switchDocument.write) {} {} = .ok bindings ∧
        readDeclarations {} (Content.ofText (String.ofList switchDocument.write)) = .ok declarations ∧
        AreClosed declarations {} {} bindings ∧
        Target.enumBlocks .rust bindings.enums = [⟨"Mode", [⟨"ON", "1"⟩]⟩, ⟨"Wide", []⟩] ∧
        HasLine bindings.commands "pub type PFN_glSwitch = unsafe extern \"system\" fn(mode: Mode, other: u32);" := by
  have hbindings : Bindings.ofDocument (String.ofList switchDocument.write) {} {} =
      .ok (Bindings.ofVersion switchVersion {}) := by
    have hvalid : ({} : Config).validate = .ok () := by decide +kernel
    rw [Bindings.ofDocument, read_switchDocument]
    simp only [Bindings.ofRegistry, hvalid]
    rfl
  obtain ⟨declarations, hdeclarations, hclosed⟩ := areClosed_bindings.1 _ {} {} _ hbindings
  have hblocks : Target.enumBlocks .rust (Bindings.ofVersion switchVersion {}).enums =
      switchVersion.groupList.map EnumBlock.ofGroup := enumBlocks_ofVersion isShaped_switch .rust
  refine ⟨_, declarations, hbindings, hdeclarations, hclosed, hblocks.trans (by decide +kernel), ?_⟩
  rw [Bindings.commands_ofVersion]
  exact hasLine_unlines (by decide +kernel)

end RegistryBindings.Artifact
