import Mathlib.Data.List.Nodup
import RegistryBindings.Artifact.Bindings
import RegistryBindings.Proofs.Artifact.Signature

/-!
# The names of parameters

A parameter keeps its name unless that is a reserved word, which the mark of the language turns into an identifier.
The names of a command are settled once and then written wherever its parameters are: in the alias of its type, in
its method, and in the call that passes them on. No identifier begins with a mark, so that names that differ stay
different, and what is escaped is no reserved word again unless the words themselves begin with the mark.
-/

namespace RegistryBindings

/-! ### Escaping -/

namespace Binding.ReservedWords

open Artifact Text

variable {reserved : ReservedWords} {name : String}

/-- No word looks as if it were escaped. -/
def IsPlain (reserved : ReservedWords) : Prop :=
  ∀ word ∈ reserved.words, ¬ reserved.mark.toList <+: word.toList

theorem escape_of_mem (h : name ∈ reserved.words) : reserved.escape name = reserved.mark ++ name := by
  rw [escape, contains, if_pos (List.contains_iff_mem.mpr h)]

theorem escape_of_not_mem (h : name ∉ reserved.words) : reserved.escape name = name := by
  rw [escape, contains, if_neg (mt List.contains_iff_mem.mp h)]

theorem escape_eq_or (reserved : ReservedWords) (name : String) :
    reserved.escape name = name ∨ reserved.escape name = reserved.mark ++ name := by
  by_cases h : name ∈ reserved.words
  · exact .inr (escape_of_mem h)
  · exact .inl (escape_of_not_mem h)

theorem IsPlain.escape_not_mem (h : reserved.IsPlain) (name : String) : reserved.escape name ∉ reserved.words := by
  by_cases hword : name ∈ reserved.words
  · rw [escape_of_mem hword]
    intro hmem
    refine h _ hmem ?_
    rw [String.toList_append]
    exact List.prefix_append reserved.mark.toList name.toList
  · rwa [escape_of_not_mem hword]

theorem IsPlain.escape_escape (h : reserved.IsPlain) (name : String) :
    reserved.escape (reserved.escape name) = reserved.escape name :=
  escape_of_not_mem (h.escape_not_mem name)

/-- The mark can be taken off again, and so no two identifiers are escaped to one name. -/
theorem nodup_map_escape {names : List String} (hmark : ∃ c ∈ reserved.mark.toList, isIdentifierChar c = false)
    (hnames : ∀ name ∈ names, IsIdentifier name) (h : names.Nodup) : (names.map reserved.escape).Nodup := by
  have hunmarked : (names.map reserved.escape).map (unmarked reserved.mark) = names := by
    have hcongr : ∀ name ∈ names, (unmarked reserved.mark ∘ reserved.escape) name = id name :=
      fun name hname => unmarked_escape (hnames name hname) hmark
    rw [List.map_map, List.map_congr_left hcongr, List.map_id]
  refine List.Nodup.of_map (unmarked reserved.mark) ?_
  rwa [hunmarked]

theorem not_mem_escape {c : Char} (hmark : c ∉ reserved.mark.toList) (hc : isIdentifierChar c = false)
    (h : IsIdentifier name) : c ∉ (reserved.escape name).toList := by
  rcases escape_eq_or reserved name with heq | heq
  · rw [heq]
    exact h.not_mem hc
  · rw [heq, String.toList_append, List.mem_append, not_or]
    exact ⟨hmark, h.not_mem hc⟩

/-- The names can stand in code for the given ones. -/
structure Escapes (reserved : ReservedWords) (given names : List String) : Prop where
  nodup : names.Nodup
  not_mem : ∀ name ∈ names, name ∉ reserved.words
  marked : List.Forall₂ (fun source name => name = source ∨ name = reserved.mark ++ source) given names
  escape_eq : ∀ name ∈ names, reserved.escape name = name

theorem IsPlain.escapes_map_escape (h : reserved.IsPlain) {given : List String}
    (hmark : ∃ c ∈ reserved.mark.toList, isIdentifierChar c = false) (hgiven : ∀ name ∈ given, IsIdentifier name)
    (hnodup : given.Nodup) : reserved.Escapes given (given.map reserved.escape) where
  nodup := nodup_map_escape hmark hgiven hnodup
  not_mem := List.forall_mem_map.mpr fun source _ => h.escape_not_mem source
  marked := List.forall₂_map_right_iff.mpr (List.forall₂_same.mpr fun source _ => escape_eq_or reserved source)
  escape_eq := List.forall_mem_map.mpr fun source _ => h.escape_escape source

end Binding.ReservedWords

namespace Artifact

open Binding Text

/-! ### Where names are written -/

def HasLine (text line : String) : Prop :=
  ∃ before after, text = unlines before ++ (line ++ "\n" ++ unlines after)

theorem hasLine_unlines {line : String} {given : List String} (h : line ∈ given) : HasLine (unlines given) line := by
  obtain ⟨before, after, rfl⟩ := List.append_of_mem h
  refine ⟨before, after, ?_⟩
  rw [unlines_append]
  simp [unlines, String.join_cons]

section

variable (names : SharedNames) (probe : Probe) {commands : List BoundCommand} {command : BoundCommand}
  (h : command ∈ commands)
include h

theorem LoaderStruct.typeAlias_subset_commands :
    LoaderStruct.typeAlias command ⊆ LoaderStruct.commands names commands probe := by
  intro line hline
  have hmem := List.mem_flatMap_of_mem h hline
  simp only [LoaderStruct.commands, List.mem_append, hmem, true_or, or_true]

theorem LoaderStruct.trampoline_subset_commands :
    LoaderStruct.trampoline command ⊆ LoaderStruct.commands names commands probe := by
  intro line hline
  have hmem : line ∈ commands.flatMap fun command => "" :: LoaderStruct.trampoline command :=
    List.mem_flatMap_of_mem h (List.mem_cons_of_mem "" hline)
  simp only [LoaderStruct.commands, LoaderStruct.methods, List.mem_append, hmem, true_or, or_true]

theorem StaticExtension.entryPoint_subset_commands :
    StaticExtension.entryPoint names command ⊆ StaticExtension.commands names commands probe := by
  intro line hline
  have hmem : line ∈ commands.flatMap fun command => "" :: StaticExtension.entryPoint names command :=
    List.mem_flatMap_of_mem h (List.mem_cons_of_mem "" hline)
  simp only [StaticExtension.commands, List.mem_append, hmem, true_or, or_true]

end

namespace Target

def parameterItem (target : Target) (name type : String) : String :=
  match target with
  | rust => name ++ ": " ++ type
  | beef => type ++ " " ++ name

/-- The lines that the parameters of a command are written in: the alias of its type, and its method with the call
that passes the arguments on. What is returned is written as the language has it. -/
def parameterLines (target : Target) (name returned : String) (items arguments : List String) : List String :=
  match target with
  | rust =>
    ["pub type PFN_" ++ name ++ " = unsafe extern \"system\" fn(" ++ commaSeparated items ++ ")" ++ returned ++ ";",
      "    pub unsafe extern \"system-unwind\" fn " ++ name ++ "(" ++ commaSeparated ("&self" :: items) ++ ")" ++
        returned ++ " \x7b",
      "        unsafe \x7b (self.p_" ++ name ++ ".unwrap_or_else(|| missing_fn(\"" ++ name ++ "\")))(" ++
        commaSeparated arguments ++ ") \x7d"]
  | beef =>
    ["\tprivate typealias " ++ name ++ "_t = function " ++ returned ++ "(" ++ commaSeparated items ++ ");",
      "\tpublic static " ++ returned ++ " " ++ name ++ "(" ++ commaSeparated items ++ ") => p_" ++ name ++ "(" ++
        commaSeparated arguments ++ ");"]

def returned : Target → BoundCommand → String
  | rust => LoaderStruct.returnSuffix
  | beef => fun command => StaticExtension.spell command.returnType

/-- The text declares the command with parameters of these names, in its alias and in its method, each with its type,
and the call passes on exactly what has these names. -/
structure Forwards (target : Target) (text : String) (command : BoundCommand) (names : List String) : Prop where
  length_eq : names.length = command.parameters.length
  hasLine : ∀ line ∈ target.parameterLines command.name (target.returned command)
    (List.zipWith target.parameterItem names (command.parameters.map fun parameter => target.spell parameter.type))
    names, HasLine text line
  commaItems_eq : commaItems (commaSeparated names) = names

theorem mem_commands_of_mem_parameterLines (target : Target) (names : SharedNames) {commands : List BoundCommand}
    (probe : Probe) {command : BoundCommand} (h : command ∈ commands) :
    ∀ line ∈ target.parameterLines command.name (target.returned command)
        (List.zipWith target.parameterItem (command.parameters.map (·.name))
          (command.parameters.map fun parameter => target.spell parameter.type))
        (command.parameters.map (·.name)),
      line ∈ target.commands names commands probe := by
  have hitems : List.zipWith target.parameterItem (command.parameters.map (·.name))
      (command.parameters.map fun parameter => target.spell parameter.type) =
        command.parameters.map fun parameter => target.parameterItem parameter.name (target.spell parameter.type) := by
    rw [List.zipWith_map, List.zipWith_self]
  rw [hitems]
  cases target with
  | rust =>
    have htypeAlias := LoaderStruct.typeAlias_subset_commands names probe h
    have htrampoline := LoaderStruct.trampoline_subset_commands names probe h
    simp only [parameterLines, List.forall_mem_cons]
    exact ⟨htypeAlias (.tail _ (.head _)), htrampoline (.tail _ (.head _)),
      htrampoline (.tail _ (.tail _ (.head _))), List.forall_mem_nil _⟩
  | beef =>
    have hentryPoint := StaticExtension.entryPoint_subset_commands names probe h
    simp only [parameterLines, List.forall_mem_cons]
    exact ⟨hentryPoint (.head _), hentryPoint (.tail _ (.tail _ (.tail _ (.head _)))), List.forall_mem_nil _⟩

/-- The reserved words of the languages are words, which no mark begins. -/
theorem isPlain_reservedWords (target : Target) :
    ReservedWords.IsPlain ⟨target.reservedWords, target.escapeMark⟩ := by
  rw [ReservedWords.IsPlain]
  cases target <;> decide

theorem not_mem_escapeMark (target : Target) : ',' ∉ target.escapeMark.toList := by
  cases target <;> decide

theorem exists_mem_escapeMark (target : Target) : ∃ c ∈ target.escapeMark.toList, isIdentifierChar c = false := by
  cases target with
  | rust => exact ⟨'#', by decide, rfl⟩
  | beef => exact ⟨'@', by decide, rfl⟩

end Target

/-! ### The parameters of a command -/

namespace Config

variable {config : Config}

/-- The words that are escaped: the ones that are configured, or else those of the language. -/
structure Reserves (config : Config) (reserved : ReservedWords) : Prop where
  configured : ∀ words, config.reservedWords? = some words → reserved.words = words
  standard : config.reservedWords? = none → reserved.words = config.target.reservedWords
  mark_eq : reserved.mark = config.target.escapeMark

theorem reserves_reserved (config : Config) : config.Reserves config.reserved where
  configured words h := by rw [reserved, h, Option.getD_some]
  standard h := by rw [reserved, h, Option.getD_none]
  mark_eq := rfl

theorem isPlain_reserved (h : ∀ words, config.reservedWords? = some words → ∀ word ∈ words,
    ¬ config.target.escapeMark.toList <+: word.toList) : config.reserved.IsPlain := by
  have hreserves := config.reserves_reserved
  rw [ReservedWords.IsPlain, hreserves.mark_eq]
  cases hwords : config.reservedWords? with
  | none =>
    rw [hreserves.standard hwords]
    exact config.target.isPlain_reservedWords
  | some words =>
    rw [hreserves.configured words hwords]
    exact h words hwords

end Config

theorem names_ofCommand (version : Registry.Version) (reserved : ReservedWords) (command : Registry.Command) :
    (BoundCommand.ofCommand version reserved command).parameters.map (·.name) =
      (command.parameters.map (·.name)).map reserved.escape := by
  simp [BoundCommand.ofCommand]

theorem forwards_ofVersion (version : Registry.Version) (config : Config) {command : Registry.Command}
    (hcommand : command ∈ version.commands) (hnames : ∀ name ∈ command.parameters.map (·.name), IsIdentifier name) :
    config.target.Forwards (Bindings.ofVersion version config).commands
      (.ofCommand version config.reserved command)
      ((BoundCommand.ofCommand version config.reserved command).parameters.map (·.name)) where
  length_eq := List.length_map _
  hasLine line hline := by
    have hmem : BoundCommand.ofCommand version config.reserved command ∈
        (Interface.ofVersion version config.reserved config.probe).commands := List.mem_map_of_mem hcommand
    rw [Bindings.commands_ofVersion]
    exact hasLine_unlines (config.target.mem_commands_of_mem_parameterLines _ _ hmem line hline)
  commaItems_eq := by
    rw [names_ofCommand]
    refine commaItems_commaSeparated (List.forall_mem_map.mpr fun name hname => ?_)
      (List.forall_mem_map.mpr fun name hname => ?_)
    · exact StaticExtension.escape_ne_empty (hnames name hname)
    · exact ReservedWords.not_mem_escape config.target.not_mem_escapeMark rfl (hnames name hname)

/-- The parameters of a command are written under names that can stand for their own, among the words that are
configured or the language's, and its method passes on the parameters that its alias declares. -/
theorem escapes_and_forwards (version : Registry.Version) (config : Config) {command : Registry.Command}
    (hcommand : command ∈ version.commands) (hnodup : (command.parameters.map (·.name)).Nodup)
    (hnames : ∀ name ∈ command.parameters.map (·.name), IsIdentifier name)
    (hwords : ∀ words, config.reservedWords? = some words → ∀ word ∈ words,
      ¬ config.target.escapeMark.toList <+: word.toList) :
    let bound := BoundCommand.ofCommand version config.reserved command
    config.Reserves config.reserved ∧
      config.reserved.Escapes (command.parameters.map (·.name)) (bound.parameters.map (·.name)) ∧
      config.target.Forwards (Bindings.ofVersion version config).commands bound (bound.parameters.map (·.name)) := by
  intro bound
  refine ⟨config.reserves_reserved, ?_, forwards_ofVersion version config hcommand hnames⟩
  have hescapes := (Config.isPlain_reserved hwords).escapes_map_escape config.target.exists_mem_escapeMark hnames hnodup
  rwa [← names_ofCommand version] at hescapes

theorem escapes_and_forwards_custom :
    let custom : Config := { reservedWords? := some ["type", "count"] }
    let standard : Config := { target := .beef }
    let command : Registry.Command :=
      ⟨"glFeed", ⟨"void", none⟩, [⟨"type", ⟨"GLenum", none⟩⟩, ⟨"ref", ⟨"GLuint", none⟩⟩, ⟨"count", ⟨"GLsizei", none⟩⟩]⟩
    let version : Registry.Version := ⟨"gl", "GL_VERSION_1_0", "1.0", ∅, [command]⟩
    custom.reserved.words = ["type", "count"] ∧
      custom.reserved.Escapes ["type", "ref", "count"] ["r#type", "ref", "r#count"] ∧
      custom.target.Forwards (Bindings.ofVersion version custom).commands
        (.ofCommand version custom.reserved command) ["r#type", "ref", "r#count"] ∧
      standard.reserved.words = ["params", "string", "ref", "base", "box"] ∧
      standard.reserved.Escapes ["type", "ref", "count"] ["type", "@ref", "count"] ∧
      standard.target.Forwards (Bindings.ofVersion version standard).commands
        (.ofCommand version standard.reserved command) ["type", "@ref", "count"] := by
  intro custom standard command version
  have hwords : ∀ words, custom.reservedWords? = some words → ∀ word ∈ words,
      ¬ custom.target.escapeMark.toList <+: word.toList := by
    rintro _ ⟨⟩
    decide
  have hcustom : (BoundCommand.ofCommand version custom.reserved command).parameters.map (·.name) =
      ["r#type", "ref", "r#count"] := by
    decide
  have hstandard : (BoundCommand.ofCommand version standard.reserved command).parameters.map (·.name) =
      ["type", "@ref", "count"] := by
    decide
  obtain ⟨hreserves, hescapes, hforwards⟩ :=
    escapes_and_forwards version custom (List.mem_singleton_self command) (by decide) (by decide) hwords
  obtain ⟨hreserves', hescapes', hforwards'⟩ :=
    escapes_and_forwards version standard (List.mem_singleton_self command) (by decide) (by decide) nofun
  rw [hcustom] at hescapes hforwards
  rw [hstandard] at hescapes' hforwards'
  exact ⟨hreserves.configured _ rfl, hescapes, hforwards, hreserves'.standard rfl, hescapes', hforwards'⟩

end Artifact

end RegistryBindings
