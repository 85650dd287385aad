import RegistryBindings.Proofs.Artifact.LoaderStruct.Lines
import RegistryBindings.Proofs.Artifact.TypeShape

/-!
# Signatures read back

A signature is a command's name, its parameters and what it returns, with the shapes of the types. In Rust
a parameter is a name, a colon and a type, in Beef a type, a space and a name; both mark the names that are
reserved words, each in its own way, and the mark is taken off again.
-/

namespace RegistryBindings.Artifact

open Binding Text

structure Signature where
  name : String
  parameters : List (String × TypeShape)
  returned : TypeShape
deriving DecidableEq, Repr

def Signature.ofCommand (version : Registry.Version) (command : Registry.Command) : Signature where
  name := command.name
  parameters := command.parameters.map fun parameter =>
    (parameter.name, TypeShape.ofType (.ofTypeRef version parameter.type))
  returned := TypeShape.ofType (.ofTypeRef version command.returnType)

structure Method where
  signature : Signature
  slot : String
  arguments : List String
deriving DecidableEq, Repr

/-- The method of a command: it calls the command's own slot with all of its parameters. -/
def Method.ofCommand (version : Registry.Version) (command : Registry.Command) : Method where
  signature := .ofCommand version command
  slot := command.name
  arguments := command.parameters.map (·.name)

def unmarked (mark name : String) : String :=
  (dropMark? mark name).getD name

structure IsLegible (version : Registry.Version) (command : Registry.Command) : Prop where
  name : IsIdentifier command.name
  parameters : ∀ parameter ∈ command.parameters, IsIdentifier parameter.name
  types : ∀ type ∈ command.returnType :: command.parameters.map (·.type),
    IsReadable (.ofTypeRef version type)

theorem unmarked_escape {reserved : ReservedWords} {name : String} (h : IsIdentifier name)
    (hmark : ∃ c ∈ reserved.mark.toList, isIdentifierChar c = false) :
    unmarked reserved.mark (reserved.escape name) = name := by
  rw [ReservedWords.escape]
  split
  · rw [unmarked, dropMark?_append, Option.getD_some]
  · have hnone : dropMark? reserved.mark name = none := by
      rw [Option.eq_none_iff_forall_not_mem]
      intro rest hrest
      obtain ⟨c, hc, hother⟩ := hmark
      rw [dropMark?_eq_some_iff.mp hrest] at h
      exact h.not_mem hother (by simp [hc])
    rw [unmarked, hnone, Option.getD_none]

variable {version : Registry.Version} {reserved : ReservedWords} {command : Registry.Command}

namespace LoaderStruct

/-- A parameter: its name, a colon, a space and its type. -/
def parameter? (text : String) : Option (String × TypeShape) := do
  let (name, rest) ← cut? ':' text
  return (unmarked "r#" name, typeShape (← dropMark? " " rest))

/-- What follows the parenthesis that closes the parameters. A command that returns nothing says so by
saying nothing. -/
def returnedShape (suffix : String) : TypeShape :=
  match dropMark? " -> " suffix with
  | some type => typeShape type
  | none => .scalar .void

def signature? (name text : String) : Option Signature :=
  (cutLast? ')' text).map fun (parameters, suffix) =>
    ⟨name, (commaItems parameters).filterMap parameter?, returnedShape suffix⟩

theorem isParameterName_escape {name : String} (h : IsIdentifier name) (hmark : reserved.mark = "r#") :
    IsParameterName (reserved.escape name) := by
  rw [ReservedWords.escape, hmark]
  split
  · exact .inr ⟨name, h, rfl⟩
  · exact .inl h

theorem unmarked_rawEscape {name : String} (h : IsIdentifier name) (hmark : reserved.mark = "r#") :
    unmarked "r#" (reserved.escape name) = name := by
  rw [← hmark]
  exact unmarked_escape h ⟨'#', by rw [hmark]; decide, by decide⟩

theorem isWritable_ofCommand (h : IsLegible version command) (hmark : reserved.mark = "r#") :
    IsWritable (BoundCommand.ofCommand version reserved command) := by
  refine ⟨h.name, fun parameter hparameter => ?_, fun type htype => ?_⟩
  · obtain ⟨source, hsource, rfl⟩ := List.mem_map.mp hparameter
    exact isParameterName_escape (h.parameters source hsource) hmark
  · have hreadable : IsReadable type := by
      rcases List.mem_cons.mp htype with rfl | hmem
      · exact h.types command.returnType List.mem_cons_self
      · obtain ⟨parameter, hparameter, rfl⟩ := List.mem_map.mp hmem
        obtain ⟨source, hsource, rfl⟩ := List.mem_map.mp hparameter
        exact h.types source.type (List.mem_cons_of_mem _ (List.mem_map_of_mem hsource))
    exact (not_mem_spell hreadable).1 '\n' (by decide)

theorem parameter?_typedParameter {name : String} {type : NativeType} (hname : IsIdentifier name)
    (hmark : reserved.mark = "r#") (htype : IsReadable type) :
    parameter? (typedParameter ⟨reserved.escape name, type⟩) = some (name, TypeShape.ofType type) := by
  have hcolon : ':' ∉ (reserved.escape name).toList :=
    (isParameterName_escape hname hmark).not_mem (by decide) (by decide)
  have hcut : cut? ':' (typedParameter ⟨reserved.escape name, type⟩) =
      some (reserved.escape name, " " ++ spell type) := by
    have hmarks : ": " = String.singleton ':' ++ " " := rfl
    rw [typedParameter, hmarks, String.append_assoc, String.append_assoc]
    exact cut?_append hcolon _
  simp only [parameter?, hcut, dropMark?_append, typeShape_spell htype, unmarked_rawEscape hname hmark,
    Option.bind_eq_bind, Option.bind_some, Option.pure_def]

theorem commaItems_typedParameters (h : IsLegible version command) (hmark : reserved.mark = "r#") :
    (commaItems (commaSeparated
        ((BoundCommand.ofCommand version reserved command).parameters.map typedParameter))).filterMap
      parameter? = (Signature.ofCommand version command).parameters := by
  have hwritable := isWritable_ofCommand h hmark
  have hreadable : ∀ source ∈ command.parameters, IsReadable (.ofTypeRef version source.type) :=
    fun source hsource => h.types source.type (List.mem_cons_of_mem _ (List.mem_map_of_mem hsource))
  rw [commaItems_commaSeparated]
  · simp only [BoundCommand.ofCommand, Signature.ofCommand, List.map_map]
    exact filterMap_map_eq_map fun source hsource =>
      parameter?_typedParameter (h.parameters source hsource) hmark (hreadable source hsource)
  · intro item hitem
    obtain ⟨parameter, hparameter, rfl⟩ := List.mem_map.mp hitem
    simp [typedParameter]
  · intro item hitem
    obtain ⟨parameter, hparameter, rfl⟩ := List.mem_map.mp hitem
    have hname := (hwritable.parameters parameter hparameter).not_mem
      (show isIdentifierChar ',' = false from rfl) (by decide)
    obtain ⟨source, hsource, rfl⟩ := List.mem_map.mp hparameter
    have htype := (not_mem_spell (hreadable source hsource)).1 ',' (by decide)
    simp [typedParameter, hname, htype]

theorem signature?_signature (h : IsLegible version command) (hmark : reserved.mark = "r#") :
    signature? command.name (signature (BoundCommand.ofCommand version reserved command)) =
      some (Signature.ofCommand version command) := by
  have hreturned := h.types command.returnType List.mem_cons_self
  have hparen : ')' ∉ (returnSuffix (BoundCommand.ofCommand version reserved command)).toList := by
    rw [returnSuffix]
    split
    · simp
    · next hvoid =>
      have htype := (not_mem_spell hreturned).2 (Bool.not_eq_true _ ▸ hvoid)
      simp [BoundCommand.ofCommand, htype]
  have hsuffix : returnedShape (returnSuffix (BoundCommand.ofCommand version reserved command)) =
      TypeShape.ofType (.ofTypeRef version command.returnType) := by
    rw [returnSuffix]
    split
    · next hvoid =>
      have hscalar : NativeType.ofTypeRef version command.returnType = .scalar .void :=
        of_decide_eq_true hvoid
      rw [hscalar]
      decide
    · rw [returnedShape, dropMark?_append]
      exact typeShape_spell hreturned
  have hcut : cutLast? ')' (signature (BoundCommand.ofCommand version reserved command)) =
      some (commaSeparated ((BoundCommand.ofCommand version reserved command).parameters.map typedParameter),
        returnSuffix (BoundCommand.ofCommand version reserved command)) := by
    have hmarks : ")" = String.singleton ')' := rfl
    rw [signature, hmarks, String.append_assoc]
    exact cutLast?_append hparen _
  rw [signature?, hcut, Option.map_some]
  simp only [commaItems_typedParameters h hmark, hsuffix]
  rfl

end LoaderStruct

namespace StaticExtension

/-- A parameter: its type, a space and its name. -/
def parameter? (text : String) : Option (String × TypeShape) :=
  (cutLast? ' ' text).map fun (type, name) => (unmarked "@" name, typeShape type)

def signatureOf (name returned parameters : String) : Signature :=
  ⟨name, (commaItems parameters).filterMap parameter?, typeShape returned⟩

theorem not_mem_escape {name : String} (h : IsIdentifier name) (hmark : reserved.mark = "@") {c : Char}
    (hc : isIdentifierChar c = false) (hother : c ≠ '@') : c ∉ (reserved.escape name).toList := by
  rw [ReservedWords.escape, hmark]
  split
  · simp [hother, h.not_mem hc]
  · exact h.not_mem hc

theorem unmarked_atEscape {name : String} (h : IsIdentifier name) (hmark : reserved.mark = "@") :
    unmarked "@" (reserved.escape name) = name := by
  rw [← hmark]
  exact unmarked_escape h ⟨'@', by rw [hmark]; decide, by decide⟩

theorem escape_ne_empty {name : String} (h : IsIdentifier name) : reserved.escape name ≠ "" := by
  have hname : name ≠ "" := fun hempty => h.ne_nil (String.toList_eq_nil_iff.mpr hempty)
  rw [ReservedWords.escape]
  split
  · exact fun hempty => hname (String.append_eq_empty_iff.mp hempty).2
  · exact hname

theorem parameter?_typedParameter {name : String} {type : NativeType} (hname : IsIdentifier name)
    (hmark : reserved.mark = "@") (htype : IsReadable type) :
    parameter? (typedParameter ⟨reserved.escape name, type⟩) = some (name, TypeShape.ofType type) := by
  have hcut : cutLast? ' ' (typedParameter ⟨reserved.escape name, type⟩) =
      some (spell type, reserved.escape name) := by
    have hspace : " " = String.singleton ' ' := rfl
    rw [typedParameter, hspace, String.append_assoc]
    exact cutLast?_append (not_mem_escape hname hmark (by decide) (by decide)) _
  simp only [parameter?, hcut, Option.map_some, typeShape_spell htype, unmarked_atEscape hname hmark]

theorem not_mem_typedParameter (h : IsLegible version command) (hmark : reserved.mark = "@") :
    ∀ item ∈ (BoundCommand.ofCommand version reserved command).parameters.map typedParameter,
      ∀ c ∈ ['\n', ',', '(', ')'], c ∉ item.toList := by
  have hplain : ∀ c ∈ ['\n', ',', '(', ')'], isIdentifierChar c = false ∧ c ≠ '@' ∧ c ≠ ' ' :=
    forall_mem_of_all (by decide)
  intro item hitem c hc
  obtain ⟨parameter, hparameter, rfl⟩ := List.mem_map.mp hitem
  obtain ⟨source, hsource, rfl⟩ := List.mem_map.mp hparameter
  obtain ⟨hother, hat, hspace⟩ := hplain c hc
  have hname := not_mem_escape (h.parameters source hsource) hmark hother hat
  have htype := not_mem_spell (h.types source.type (List.mem_cons_of_mem _ (List.mem_map_of_mem hsource))) c hc
  simp [typedParameter, hname, htype, hspace]

theorem signatureOf_ofCommand (h : IsLegible version command) (hmark : reserved.mark = "@") :
    signatureOf command.name (spell (.ofTypeRef version command.returnType))
        (commaSeparated
          ((BoundCommand.ofCommand version reserved command).parameters.map typedParameter)) =
      Signature.ofCommand version command := by
  have hitems := not_mem_typedParameter h hmark
  rw [signatureOf, typeShape_spell (h.types command.returnType List.mem_cons_self),
    commaItems_commaSeparated, Signature.ofCommand]
  · have hparameters : ((BoundCommand.ofCommand version reserved command).parameters.map
        typedParameter).filterMap parameter? = (Signature.ofCommand version command).parameters := by
      simp only [BoundCommand.ofCommand, Signature.ofCommand, List.map_map]
      refine filterMap_map_eq_map fun source hsource => parameter?_typedParameter
        (h.parameters source hsource) hmark (h.types source.type ?_)
      exact List.mem_cons_of_mem _ (List.mem_map_of_mem hsource)
    rw [hparameters]
    rfl
  · intro item hitem
    obtain ⟨parameter, hparameter, rfl⟩ := List.mem_map.mp hitem
    simp [typedParameter]
  · exact fun item hitem => hitems item hitem ',' (by decide)

end StaticExtension

end RegistryBindings.Artifact
