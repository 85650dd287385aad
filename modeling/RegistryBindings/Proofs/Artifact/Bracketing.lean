import RegistryBindings.Proofs.Artifact.EnumsLayout
import RegistryBindings.Proofs.Artifact.Indirection
import RegistryBindings.Proofs.Artifact.ParameterNames
import RegistryBindings.Proofs.Artifact.TypeShape
import RegistryBindings.Proofs.Binding.Literal
import RegistryBindings.Proofs.Text.Brackets

/-!
# Artifacts are bracketed

Every bracket in an artifact is closed by its own kind and in the right order, however many groups, members, commands
and parameters there are. What is printed of each of them is bracketed by itself, so that any number can stand in a row,
and the fixed text around them closes what it opens. Names and literals have no brackets, and types have them in pairs
unless a token that is passed on brings one of its own.

Each function that prints has one lemma here, which says that its lines are bracketed. The parts that it puts together
enter as bracketed texts and drop out, and the fixed text that is left has nothing unknown in it and is simply read.
-/

namespace RegistryBindings.Artifact

open Binding Text

/-! ### Lines and lists -/

theorem isBracketed_ofList {text : List Char} (h : text.foldlM bracketStep [] = some []) :
    IsBracketed (String.ofList text) := by
  rw [IsBracketed, openAfter?_ofList, h]

@[simp]
theorem openAfter?_unlines_nil (opened : List Bracket) : openAfter? opened (unlines []) = some opened :=
  openAfter?_empty opened

@[simp]
theorem openAfter?_unlines_cons (opened : List Bracket) (line : String) (given : List String) :
    openAfter? opened (unlines (line :: given)) =
      (openAfter? opened line).bind fun opened => openAfter? opened (unlines given) := by
  have htext : unlines (line :: given) = line ++ "\n" ++ unlines given := by
    simp [unlines, String.join_cons]
  have hnewline : IsBracketed "\n" := isBracketed_ofList rfl
  rw [htext, openAfter?_append, openAfter?_append]
  simp only [hnewline.openAfter?, Option.bind_fun_some]

@[simp]
theorem openAfter?_unlines_append (opened : List Bracket) (first second : List String) :
    openAfter? opened (unlines (first ++ second)) =
      (openAfter? opened (unlines first)).bind fun opened => openAfter? opened (unlines second) := by
  rw [unlines_append, openAfter?_append]

theorem isBracketed_singleton {line : String} (h : IsBracketed line) : IsBracketed (unlines [line]) := by
  rw [IsBracketed, openAfter?_unlines_cons, h.openAfter?, Option.bind_some, openAfter?_unlines_nil]

theorem isBracketed_blank_cons {given : List String} (h : IsBracketed (unlines given)) :
    IsBracketed (unlines ("" :: given)) := by
  rw [IsBracketed, openAfter?_unlines_cons, openAfter?_empty, Option.bind_some, h]

theorem isBracketed_flatMap {α : Type} {chunk : α → List String} {items : List α}
    (h : ∀ item ∈ items, IsBracketed (unlines (chunk item))) : IsBracketed (unlines (items.flatMap chunk)) := by
  induction items with
  | nil => rfl
  | cons item items ih =>
    have hitem := h item List.mem_cons_self
    have hitems := ih fun other hother => h other (List.mem_cons_of_mem item hother)
    rw [List.flatMap_cons, unlines_append]
    exact hitem.append hitems

theorem isBracketed_map {α : Type} {line : α → String} {items : List α}
    (h : ∀ item ∈ items, IsBracketed (line item)) : IsBracketed (unlines (items.map line)) := by
  rw [List.map_eq_flatMap]
  exact isBracketed_flatMap fun item hitem => isBracketed_singleton (h item hitem)

theorem isBracketed_intercalate {α : Type} {chunk : α → List String} {items : List α}
    (h : ∀ item ∈ items, IsBracketed (unlines (chunk item))) :
    IsBracketed (unlines ([""].intercalate (items.map chunk))) := by
  induction items with
  | nil => rfl
  | cons item items ih =>
    have hitem := h item List.mem_cons_self
    have hitems := ih fun other hother => h other (List.mem_cons_of_mem item hother)
    cases items with
    | nil => simpa using hitem
    | cons next items =>
      have hblank : IsBracketed (unlines [""]) := rfl
      rw [List.map_cons] at hitems
      rw [List.map_cons, List.map_cons, List.intercalate_cons_cons, unlines_append, unlines_append]
      exact (hitem.append hblank).append hitems

theorem isBracketed_commaSeparated {items : List String} (h : ∀ item ∈ items, IsBracketed item) :
    IsBracketed (commaSeparated items) := by
  induction items with
  | nil => rfl
  | cons item items ih =>
    have hitem := h item List.mem_cons_self
    have hitems := ih fun other hother => h other (List.mem_cons_of_mem item hother)
    have hcomma : IsBracketed ", " := isBracketed_ofList rfl
    rw [commaSeparated_cons]
    split
    · rwa [String.append_empty]
    · exact hitem.append (hcomma.append hitems)

/-! ### Names and types -/

theorem isBare_toSnakeCase {name : String} (h : IsBare name) : IsBare (toSnakeCase name) := by
  have hother : ∀ c ∈ brackets, c.isLower = false ∧ c ≠ '_' := forall_mem_of_all (by decide)
  exact fun c hc => not_mem_toSnakeCase (hother c hc).1 (hother c hc).2 (h c hc)

theorem isBare_withoutApi {name : String} (h : IsBare name) : IsBare (withoutApi name) := by
  intro c hc hmem
  rw [withoutApi] at hmem
  split at hmem
  · exact h c hc hmem
  · next first rest hrest =>
    rw [String.toList_ofList, ← hrest] at hmem
    exact h c hc ((List.dropWhile_sublist _).subset hmem)

theorem isBare_of_fitsWord {literal : String} (h : fitsWord literal = true) : IsBare literal := by
  have hother : ∀ c ∈ brackets, isHexDigit c = false ∧ c ≠ 'x' := forall_mem_of_all (by decide)
  intro c hc hmem
  rcases isHexDigit_or_eq_mark h hmem with hdigit | hmark
  · rw [(hother c hc).1] at hdigit
    cases hdigit
  · exact (hother c hc).2 hmark

theorem isBare_join_replicate {mark : String} (h : IsBare mark) (count : Nat) :
    IsBare (String.join (List.replicate count mark)) := fun c hc =>
  not_mem_join_replicate (h c hc) count

/-- No name or token that the type is spelled with has a bracket. -/
def IsBareType : NativeType → Prop
  | .scalar _ | .pointer _ _ _ => True
  | .enum group => IsBare group
  | .verbatim token => IsBare token

instance : (type : NativeType) → Decidable (IsBareType type)
  | .scalar _ | .pointer .. => .isTrue trivial
  | .enum name | .verbatim name => inferInstanceAs (Decidable (IsBare name))

theorem LoaderStruct.isBracketed_spell {type : NativeType} (h : IsBareType type) : IsBracketed (spell type) := by
  cases type with
  | scalar scalar => cases scalar <;> exact isBracketed_ofList rfl
  | pointer pointee mutability depth =>
    have hlevels : IsBare (String.join (List.replicate (depth - 1) "*mut ")) := isBare_join_replicate (by decide) _
    have hpointee : IsBracketed (pointeeName pointee) := by
      cases pointee <;> exact isBracketed_ofList rfl
    cases mutability <;> exact (hlevels.isBracketed.append (isBracketed_ofList rfl)).append hpointee
  | enum group => exact h.isBracketed
  | verbatim token => exact h.isBracketed

theorem StaticExtension.isBracketed_spell {type : NativeType} (h : IsBareType type) :
    IsBracketed (spell type) := by
  cases type with
  | scalar scalar => cases scalar <;> exact isBracketed_ofList rfl
  | pointer pointee mutability depth =>
    have hpointee : IsBracketed (scalarName pointee) := by
      cases pointee <;> exact isBracketed_ofList rfl
    have hstars : IsBare (String.join (List.replicate depth "*")) := isBare_join_replicate (by decide) depth
    exact hpointee.append hstars.isBracketed
  | enum group => exact h.isBracketed
  | verbatim token => exact h.isBracketed

structure IsBareCommand (command : BoundCommand) : Prop where
  name : IsBare command.name
  returnType : IsBareType command.returnType
  parameterNames : ∀ parameter ∈ command.parameters, IsBare parameter.name
  parameterTypes : ∀ parameter ∈ command.parameters, IsBareType parameter.type

structure IsBareBlock (block : EnumBlock) : Prop where
  name : IsBare block.name
  identifiers : ∀ member ∈ block.members, IsBare member.identifier
  values : ∀ member ∈ block.members, IsBare member.value

theorem IsBareCommand.isBracketed_arguments {command : BoundCommand} (h : IsBareCommand command) :
    IsBracketed (commaSeparated (command.parameters.map (·.name))) :=
  isBracketed_commaSeparated (List.forall_mem_map.mpr fun parameter hparameter =>
    (h.parameterNames parameter hparameter).isBracketed)

variable {names : SharedNames} {block : EnumBlock} {command : BoundCommand} {commands : List BoundCommand}
  {probe : Probe}

/-! ### The artifacts in Rust -/

namespace LoaderStruct

theorem isBracketed_enumMember {member : EnumMember} (hidentifier : IsBare member.identifier)
    (hvalue : IsBare member.value) : IsBracketed (enumMember member) := by
  unfold IsBracketed enumMember
  -- Without its index, `simp` takes a literal for the list of its characters.
  simp -index only [openAfter?_append, openAfter?_ofList, hidentifier.isBracketed.openAfter?,
    hvalue.isBracketed.openAfter?]
  rfl

theorem isBracketed_enumBlock (h : IsBareBlock block) : IsBracketed (unlines (enumBlock block)) := by
  have hname := h.name.isBracketed
  have hmembers : IsBracketed (unlines (block.members.map enumMember)) :=
    isBracketed_map fun member hmember =>
      isBracketed_enumMember (h.identifiers member hmember) (h.values member hmember)
  by_cases hnil : block.members = []
  · rw [IsBracketed, enumBlock_of_nil hnil, blockAttributes]
    simp -index only [openAfter?_unlines_append, openAfter?_unlines_cons, openAfter?_unlines_nil,
      openAfter?_append, openAfter?_ofList, hname.openAfter?]
    rfl
  · rw [IsBracketed, enumBlock_of_ne_nil hnil, blockAttributes]
    simp -index only [openAfter?_unlines_append, openAfter?_unlines_cons, openAfter?_unlines_nil,
      openAfter?_append, openAfter?_ofList, hname.openAfter?, hmembers.openAfter?]
    rfl

theorem isBracketed_enums {blocks : List EnumBlock} (hspace : IsBare names.space)
    (h : ∀ block ∈ blocks, IsBareBlock block) : IsBracketed (unlines (Target.enums .rust names blocks)) := by
  have hblocks : IsBracketed (unlines ([""].intercalate (blocks.map enumBlock))) :=
    isBracketed_intercalate fun block hblock => isBracketed_enumBlock (h block hblock)
  change IsBracketed (unlines (enumsPrologue names ++ [""].intercalate (blocks.map enumBlock) ++ enumsEpilogue))
  unfold IsBracketed enumsPrologue enumsEpilogue header
  simp -index only [openAfter?_unlines_append, openAfter?_unlines_cons, openAfter?_unlines_nil,
    openAfter?_append, openAfter?_ofList, hspace.isBracketed.openAfter?, hblocks.openAfter?]
  rfl

theorem isBracketed_typedParameters (h : IsBareCommand command) :
    ∀ item ∈ command.parameters.map typedParameter, IsBracketed item :=
  List.forall_mem_map.mpr fun parameter hparameter =>
    ((h.parameterNames parameter hparameter).isBracketed.append (isBracketed_ofList rfl)).append
      (isBracketed_spell (h.parameterTypes parameter hparameter))

theorem isBracketed_returnSuffix (h : IsBareType command.returnType) : IsBracketed (returnSuffix command) := by
  rw [returnSuffix]
  split
  · exact openAfter?_empty []
  · exact IsBracketed.append (isBracketed_ofList rfl) (isBracketed_spell h)

theorem isBracketed_typeAlias (h : IsBareCommand command) : IsBracketed (unlines (typeAlias command)) := by
  have hname := h.name.isBracketed
  have hparameters : IsBracketed (commaSeparated (command.parameters.map typedParameter)) :=
    isBracketed_commaSeparated (isBracketed_typedParameters h)
  have hreturn := isBracketed_returnSuffix h.returnType
  unfold IsBracketed typeAlias
  simp -index only [openAfter?_unlines_cons, openAfter?_unlines_nil, openAfter?_append, openAfter?_ofList,
    hname.openAfter?, hparameters.openAfter?, hreturn.openAfter?]
  rfl

theorem isBracketed_slot (h : IsBare command.name) : IsBracketed (slot command) := by
  unfold IsBracketed slot
  simp -index only [openAfter?_append, openAfter?_ofList, h.isBracketed.openAfter?]
  rfl

theorem isBracketed_table (hclass : IsBare names.nativeClass) (h : ∀ command ∈ commands, IsBareCommand command) :
    IsBracketed (unlines (table names commands)) := by
  have hslots : IsBracketed (unlines (commands.map slot)) :=
    isBracketed_map fun command hcommand => isBracketed_slot (h command hcommand).name
  unfold IsBracketed table resolver
  simp -index only [openAfter?_unlines_append, openAfter?_unlines_cons, openAfter?_unlines_nil,
    openAfter?_append, openAfter?_ofList, hclass.isBracketed.openAfter?, hslots.openAfter?]
  rfl

theorem isBracketed_trampoline (h : IsBareCommand command) : IsBracketed (unlines (trampoline command)) := by
  have hname := h.name.isBracketed
  have harguments := h.isBracketed_arguments
  have hreturn := isBracketed_returnSuffix h.returnType
  have hparameters : IsBracketed (commaSeparated ("&self" :: command.parameters.map typedParameter)) :=
    isBracketed_commaSeparated (List.forall_mem_cons.mpr ⟨isBracketed_ofList rfl, isBracketed_typedParameters h⟩)
  unfold IsBracketed trampoline
  simp -index only [openAfter?_unlines_cons, openAfter?_unlines_nil, openAfter?_append, openAfter?_ofList,
    hname.openAfter?, hparameters.openAfter?, harguments.openAfter?, hreturn.openAfter?]
  rfl

theorem isBracketed_assignment {name : String} (h : IsBare name) : IsBracketed (assignment name) := by
  unfold IsBracketed assignment
  simp -index only [openAfter?_append, openAfter?_ofList, h.isBracketed.openAfter?]
  rfl

theorem isBracketed_loader {method : String} {bound : List String} (hmethod : IsBare method)
    (h : ∀ name ∈ bound, IsBare name) : IsBracketed (unlines (loader method bound)) := by
  have hassignments : IsBracketed (unlines (bound.map fun name => "        " ++ assignment name)) :=
    isBracketed_map fun name hname =>
      IsBracketed.append (isBracketed_ofList rfl) (isBracketed_assignment (h name hname))
  unfold IsBracketed loader resolver
  simp -index only [openAfter?_unlines_append, openAfter?_unlines_cons, openAfter?_unlines_nil,
    openAfter?_append, openAfter?_ofList, hmethod.isBracketed.openAfter?, hassignments.openAfter?]
  rfl

theorem isBracketed_probeLoader (h : IsBare probe.name) : IsBracketed (unlines (probeLoader probe)) := by
  have hmethod : IsBare (probeMethod probe.name) :=
    isBare_append.mpr ⟨by decide, isBare_toSnakeCase (isBare_withoutApi h)⟩
  unfold probeLoader
  split
  · have hloader := isBracketed_loader hmethod (List.forall_mem_singleton.mpr h)
    unfold IsBracketed
    simp -index only [openAfter?_unlines_append, openAfter?_unlines_cons, openAfter?_unlines_nil,
      openAfter?_append, openAfter?_ofList, h.isBracketed.openAfter?, hloader.openAfter?]
    rfl
  · have hloader := isBracketed_loader hmethod (List.forall_mem_nil IsBare)
    unfold IsBracketed
    simp -index only [openAfter?_unlines_append, openAfter?_unlines_cons, openAfter?_unlines_nil,
      openAfter?_ofList, hloader.openAfter?]
    rfl

theorem isBracketed_fullLoader (h : ∀ command ∈ commands, IsBare command.name) :
    IsBracketed (unlines (fullLoader commands)) := by
  have hmethod : IsBare "load_all_functions" := by decide
  have hloader := isBracketed_loader hmethod (List.forall_mem_map.mpr h)
  unfold IsBracketed fullLoader
  simp -index only [openAfter?_unlines_append, openAfter?_unlines_cons, openAfter?_unlines_nil,
    openAfter?_ofList, hloader.openAfter?]
  rfl

theorem isBracketed_loadArm (h : IsBare command.name) : IsBracketed (unlines (loadArm command)) := by
  have hassignment := isBracketed_assignment h
  unfold IsBracketed loadArm
  simp -index only [openAfter?_unlines_cons, openAfter?_unlines_nil, openAfter?_append, openAfter?_ofList,
    h.isBracketed.openAfter?, hassignment.openAfter?]
  rfl

theorem isBracketed_singleLoader (h : ∀ command ∈ commands, IsBare command.name) :
    IsBracketed (unlines (singleLoader commands)) := by
  have harms : IsBracketed (unlines (commands.flatMap loadArm)) :=
    isBracketed_flatMap fun command hcommand => isBracketed_loadArm (h command hcommand)
  unfold IsBracketed singleLoader
  simp -index only [openAfter?_unlines_append, openAfter?_unlines_cons, openAfter?_unlines_nil,
    openAfter?_ofList, harms.openAfter?]
  rfl

theorem isBracketed_loadedArm (h : IsBare command.name) : IsBracketed (loadedArm command) := by
  unfold IsBracketed loadedArm
  simp -index only [openAfter?_append, openAfter?_ofList, h.isBracketed.openAfter?]
  rfl

theorem isBracketed_loadedQuery (h : ∀ command ∈ commands, IsBare command.name) :
    IsBracketed (unlines (loadedQuery commands)) := by
  have harms : IsBracketed (unlines (commands.map loadedArm)) :=
    isBracketed_map fun command hcommand => isBracketed_loadedArm (h command hcommand)
  unfold IsBracketed loadedQuery
  simp -index only [openAfter?_unlines_append, openAfter?_unlines_cons, openAfter?_unlines_nil,
    openAfter?_ofList, harms.openAfter?]
  rfl

theorem isBracketed_resolveMethod : IsBracketed (unlines resolveMethod) := by
  unfold IsBracketed resolveMethod
  simp -index only [openAfter?_unlines_cons, openAfter?_unlines_nil, openAfter?_ofList]
  rfl

theorem isBracketed_methods (hclass : IsBare names.nativeClass) (h : ∀ command ∈ commands, IsBareCommand command)
    (hprobe : IsBare probe.name) : IsBracketed (unlines (methods names commands probe)) := by
  have hnames : ∀ command ∈ commands, IsBare command.name := fun command hcommand => (h command hcommand).name
  have htrampolines : IsBracketed (unlines (commands.flatMap fun command => "" :: trampoline command)) :=
    isBracketed_flatMap fun command hcommand => isBracketed_blank_cons (isBracketed_trampoline (h command hcommand))
  have hprobeLoader := isBracketed_probeLoader hprobe
  have hfullLoader := isBracketed_fullLoader hnames
  have hsingleLoader := isBracketed_singleLoader hnames
  have hloadedQuery := isBracketed_loadedQuery hnames
  unfold IsBracketed methods constructor
  simp -index only [openAfter?_unlines_append, openAfter?_unlines_cons, openAfter?_unlines_nil,
    openAfter?_append, openAfter?_ofList, hclass.isBracketed.openAfter?, htrampolines.openAfter?,
    hprobeLoader.openAfter?, hfullLoader.openAfter?, hsingleLoader.openAfter?, hloadedQuery.openAfter?,
    isBracketed_resolveMethod.openAfter?]
  rfl

theorem isBracketed_commands (hspace : IsBare names.space) (hclass : IsBare names.nativeClass)
    (h : ∀ command ∈ commands, IsBareCommand command) (hprobe : IsBare probe.name) :
    IsBracketed (unlines (Target.commands .rust names commands probe)) := by
  have haliases : IsBracketed (unlines (commands.flatMap typeAlias)) :=
    isBracketed_flatMap fun command hcommand => isBracketed_typeAlias (h command hcommand)
  have hseparator : IsBracketed (unlines (if commands.isEmpty then [] else [""])) := by
    split <;> rfl
  have htable := isBracketed_table hclass h
  have hmethods := isBracketed_methods hclass h hprobe
  change IsBracketed (unlines (LoaderStruct.commands names commands probe))
  unfold IsBracketed LoaderStruct.commands header missingFunction
  simp -index only [openAfter?_unlines_append, openAfter?_unlines_cons, openAfter?_unlines_nil,
    openAfter?_append, openAfter?_ofList, hspace.isBracketed.openAfter?, haliases.openAfter?,
    hseparator.openAfter?, htable.openAfter?, hmethods.openAfter?]
  rfl

end LoaderStruct

/-! ### The artifacts in Beef -/

namespace StaticExtension

theorem isBracketed_enumMember {member : EnumMember} (hidentifier : IsBare member.identifier)
    (hvalue : IsBare member.value) : IsBracketed (enumMember member) := by
  unfold IsBracketed enumMember
  simp -index only [openAfter?_append, openAfter?_ofList, hidentifier.isBracketed.openAfter?,
    hvalue.isBracketed.openAfter?]
  rfl

theorem isBracketed_enumBlock (h : IsBareBlock block) : IsBracketed (unlines (enumBlock block)) := by
  have hname := h.name.isBracketed
  have hmembers : IsBracketed (unlines (block.members.map enumMember)) :=
    isBracketed_map fun member hmember =>
      isBracketed_enumMember (h.identifiers member hmember) (h.values member hmember)
  unfold IsBracketed enumBlock
  simp -index only [openAfter?_unlines_append, openAfter?_unlines_cons, openAfter?_unlines_nil,
    openAfter?_append, openAfter?_ofList, hname.openAfter?, hmembers.openAfter?]
  rfl

theorem isBracketed_enums {blocks : List EnumBlock} (hspace : IsBare names.space)
    (h : ∀ block ∈ blocks, IsBareBlock block) : IsBracketed (unlines (Target.enums .beef names blocks)) := by
  have hblocks : IsBracketed (unlines ([""].intercalate (blocks.map enumBlock))) :=
    isBracketed_intercalate fun block hblock => isBracketed_enumBlock (h block hblock)
  change IsBracketed (unlines (enumsPrologue names ++ [""].intercalate (blocks.map enumBlock) ++ enumsEpilogue))
  unfold IsBracketed enumsPrologue enumsEpilogue
  simp -index only [openAfter?_unlines_append, openAfter?_unlines_cons, openAfter?_unlines_nil,
    openAfter?_append, openAfter?_ofList, hspace.isBracketed.openAfter?, hblocks.openAfter?]
  rfl

theorem isBracketed_typedParameters (h : IsBareCommand command) :
    ∀ item ∈ command.parameters.map typedParameter, IsBracketed item :=
  List.forall_mem_map.mpr fun parameter hparameter =>
    ((isBracketed_spell (h.parameterTypes parameter hparameter)).append (isBracketed_ofList rfl)).append
      (h.parameterNames parameter hparameter).isBracketed

theorem isBracketed_entryPoint (hclass : IsBare names.nativeClass) (h : IsBareCommand command) :
    IsBracketed (unlines (entryPoint names command)) := by
  have hname := h.name.isBracketed
  have hreturned := isBracketed_spell h.returnType
  have harguments := h.isBracketed_arguments
  have hparameters : IsBracketed (commaSeparated (command.parameters.map typedParameter)) :=
    isBracketed_commaSeparated (isBracketed_typedParameters h)
  unfold IsBracketed entryPoint
  simp -index only [openAfter?_unlines_cons, openAfter?_unlines_nil, openAfter?_append, openAfter?_ofList,
    hclass.isBracketed.openAfter?, hname.openAfter?, hreturned.openAfter?, hparameters.openAfter?,
    harguments.openAfter?]
  rfl

theorem isBracketed_assignment {name : String} (h : IsBare name) : IsBracketed (assignment name) := by
  unfold IsBracketed assignment
  simp -index only [openAfter?_append, openAfter?_ofList, h.isBracketed.openAfter?]
  rfl

theorem isBracketed_probeLoader (h : IsBare probe.name) : IsBracketed (unlines (probeLoader probe)) := by
  have hmethod : IsBare (probeMethod probe.name) := isBare_append.mpr ⟨by decide, isBare_withoutApi h⟩
  have hassignment : IsBracketed (unlines (if probe.present then [assignment probe.name] else [])) := by
    split
    · exact isBracketed_singleton (isBracketed_assignment h)
    · rfl
  unfold IsBracketed probeLoader loaderStart
  simp -index only [openAfter?_unlines_append, openAfter?_unlines_cons, openAfter?_unlines_nil,
    openAfter?_append, openAfter?_ofList, hmethod.isBracketed.openAfter?, hassignment.openAfter?]
  rfl

theorem isBracketed_fullLoader (h : ∀ command ∈ commands, IsBare command.name) :
    IsBracketed (unlines (fullLoader commands)) := by
  have hassignments : IsBracketed (unlines (commands.map fun command => assignment command.name)) :=
    isBracketed_map fun command hcommand => isBracketed_assignment (h command hcommand)
  unfold IsBracketed fullLoader loaderStart
  simp -index only [openAfter?_unlines_append, openAfter?_unlines_cons, openAfter?_unlines_nil,
    openAfter?_append, openAfter?_ofList, hassignments.openAfter?]
  rfl

theorem isBracketed_commands (hspace : IsBare names.space) (hclass : IsBare names.nativeClass)
    (h : ∀ command ∈ commands, IsBareCommand command) (hprobe : IsBare probe.name) :
    IsBracketed (unlines (Target.commands .beef names commands probe)) := by
  have hentryPoints : IsBracketed (unlines (commands.flatMap fun command => "" :: entryPoint names command)) :=
    isBracketed_flatMap fun command hcommand =>
      isBracketed_blank_cons (isBracketed_entryPoint hclass (h command hcommand))
  have hprobeLoader := isBracketed_probeLoader hprobe
  have hfullLoader := isBracketed_fullLoader fun command hcommand => (h command hcommand).name
  change IsBracketed (unlines (StaticExtension.commands names commands probe))
  unfold IsBracketed StaticExtension.commands resolveMethod
  simp -index only [openAfter?_unlines_append, openAfter?_unlines_cons, openAfter?_unlines_nil,
    openAfter?_append, openAfter?_ofList, hspace.isBracketed.openAfter?, hclass.isBracketed.openAfter?,
    hentryPoints.openAfter?, hprobeLoader.openAfter?, hfullLoader.openAfter?]
  rfl

end StaticExtension

/-! ### The artifacts of a version -/

/-- Nothing that is written of the interface or its names has a bracket of its own. -/
structure IsBareInterface (names : SharedNames) (interface : Interface) : Prop where
  space : IsBare names.space
  nativeClass : IsBare names.nativeClass
  blocks : ∀ block ∈ interface.blocks, IsBareBlock block
  commands : ∀ command ∈ interface.commands, IsBareCommand command
  probe : IsBare interface.probe.name

theorem IsBareInterface.isBracketed {interface : Interface} (h : IsBareInterface names interface) (target : Target) :
    IsBracketed (Bindings.ofInterface target names interface).enums ∧
      IsBracketed (Bindings.ofInterface target names interface).commands := by
  simp only [Bindings.ofInterface]
  cases target with
  | rust =>
    exact ⟨LoaderStruct.isBracketed_enums h.space h.blocks,
      LoaderStruct.isBracketed_commands h.space h.nativeClass h.commands h.probe⟩
  | beef =>
    exact ⟨StaticExtension.isBracketed_enums h.space h.blocks,
      StaticExtension.isBracketed_commands h.space h.nativeClass h.commands h.probe⟩

variable {version : Registry.Version} {config : Config}

/-- All names are words, and there is no bracket in the tokens that are passed on as they are. -/
structure IsSpelledInWords (version : Registry.Version) (config : Config) : Prop where
  space : IsIdentifier config.names.space
  nativeClass : IsIdentifier config.names.nativeClass
  probe : IsIdentifier config.probe
  groups : HasWords version
  commands : ∀ command ∈ version.commands, IsIdentifier command.name
  parameters : ∀ command ∈ version.commands, ∀ parameter ∈ command.parameters, IsIdentifier parameter.name
  tokens : ∀ command ∈ version.commands, ∀ type ∈ command.typeRefs, ∀ token,
    NativeType.ofTypeRef version type = .verbatim token → IsBare token

theorem isBareBlock_ofGroup (h : HasWords version) {group : Registry.Group} (hgroup : group ∈ version.groupList) :
    IsBareBlock (.ofGroup group) where
  name := (h.groups group hgroup).isBare
  identifiers := List.forall_mem_map.mpr fun enumerant henumerant =>
    (isIdentifier_memberIdentifier (h.members group hgroup enumerant (List.mem_of_mem_filter henumerant))).isBare
  values := List.forall_mem_map.mpr fun _ henumerant => isBare_of_fitsWord (List.mem_filter.mp henumerant).2

theorem isBareType_ofTypeRef (h : HasWords version) {type : Registry.TypeRef}
    (htoken : ∀ token, NativeType.ofTypeRef version type = .verbatim token → IsBare token) :
    IsBareType (.ofTypeRef version type) := by
  cases htype : NativeType.ofTypeRef version type with
  | scalar scalar => trivial
  | pointer pointee mutability depth => trivial
  | enum name =>
    obtain ⟨group, hgroup, rfl⟩ :=
      List.mem_map.mp (Registry.Version.mem_names_groupList.mpr (refersToGroup_of_ofTypeRef htype).2.2)
    exact (h.groups group hgroup).isBare
  | verbatim token => exact htoken token htype

theorem isBare_escape {name : String} (h : IsIdentifier name) (target : Target) (words : List String) :
    IsBare (ReservedWords.escape ⟨words, target.escapeMark⟩ name) := by
  have hmark : IsBare target.escapeMark := by
    cases target <;> decide
  have hother : ∀ c ∈ brackets, isIdentifierChar c = false := forall_mem_of_all (by decide)
  exact fun c hc => ReservedWords.not_mem_escape (hmark c hc) (hother c hc) h

theorem IsSpelledInWords.isBareCommand (h : IsSpelledInWords version config) {command : Registry.Command}
    (hcommand : command ∈ version.commands) : IsBareCommand (.ofCommand version config.reserved command) where
  name := (h.commands command hcommand).isBare
  returnType := isBareType_ofTypeRef h.groups (h.tokens command hcommand _ List.mem_cons_self)
  parameterNames := List.forall_mem_map.mpr fun parameter hparameter =>
    isBare_escape (h.parameters command hcommand parameter hparameter) config.target _
  parameterTypes := List.forall_mem_map.mpr fun _ hparameter =>
    isBareType_ofTypeRef h.groups
      (h.tokens command hcommand _ (List.mem_cons_of_mem _ (List.mem_map_of_mem hparameter)))

theorem IsSpelledInWords.isBareInterface (h : IsSpelledInWords version config) :
    IsBareInterface config.names (.ofVersion version config.reserved config.probe) where
  space := h.space.isBare
  nativeClass := h.nativeClass.isBare
  blocks := List.forall_mem_map.mpr fun _ hgroup => isBareBlock_ofGroup h.groups hgroup
  commands := List.forall_mem_map.mpr fun _ hcommand => h.isBareCommand hcommand
  probe := h.probe.isBare

/-- Whatever a version has and whatever it lacks, each bracket of its two artifacts is closed by its own kind and in the
right order, none is closed that was not opened, and none stays open. -/
theorem isBracketed_ofVersion (h : IsSpelledInWords version config) :
    IsBracketed (Bindings.ofVersion version config).enums ∧
      IsBracketed (Bindings.ofVersion version config).commands :=
  h.isBareInterface.isBracketed config.target

/-- A version with a group without members, a command without parameters and one whose type is passed on. It does not
have the command that is loaded first. -/
def unevenVersion : Registry.Version :=
  (({ api := "gl", name := "GL_VERSION_1_0", number := "1.0",
      commands := [⟨"glFlush", ⟨"void", none⟩, []⟩,
        ⟨"glFenceSync", ⟨"struct sync", none⟩,
          [⟨"type", ⟨"GLenum", some "SyncCondition"⟩⟩, ⟨"values", ⟨"const void **", none⟩⟩]⟩] } :
    Registry.Version).addGroup ⟨"SyncCondition", [⟨"GL_2D", "2D", "0x0600"⟩]⟩).addGroup ⟨"Emptied", []⟩

theorem isSpelledInWords_uneven (target : Target) : IsSpelledInWords unevenVersion { target := target } where
  space := show IsIdentifier "gl" by decide
  nativeClass := show IsIdentifier "Gl" by decide
  probe := show IsIdentifier "glGetString" by decide
  groups := by constructor <;> decide +kernel
  commands := by decide +kernel
  parameters := by decide +kernel
  tokens command hcommand type htype token htoken := by
    have htypes : ∀ command ∈ unevenVersion.commands, ∀ type ∈ command.typeRefs,
        IsBareType (.ofTypeRef unevenVersion type) := by decide +kernel
    have hbare := htypes command hcommand type htype
    rwa [htoken] at hbare

theorem isBracketed_uneven :
    (IsBracketed (Bindings.ofVersion unevenVersion { target := .rust }).enums ∧
      IsBracketed (Bindings.ofVersion unevenVersion { target := .rust }).commands) ∧
    IsBracketed (Bindings.ofVersion unevenVersion { target := .beef }).enums ∧
      IsBracketed (Bindings.ofVersion unevenVersion { target := .beef }).commands :=
  ⟨isBracketed_ofVersion (isSpelledInWords_uneven .rust), isBracketed_ofVersion (isSpelledInWords_uneven .beef)⟩

end RegistryBindings.Artifact
