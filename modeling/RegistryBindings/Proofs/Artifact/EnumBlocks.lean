import Mathlib.Tactic.Choose
import RegistryBindings.Artifact.Bindings
import RegistryBindings.Proofs.Artifact.Lines
import RegistryBindings.Proofs.Text.Marks

/-!
# Enum blocks read back

In either language a block begins with a line that names its type, and ends with the first line that ends
with a brace that closes. In between each member has a line of its own. The blocks of an artifact are found
again as they were, whatever the values of the members are, as long as they are on one line.
-/

namespace RegistryBindings.Artifact

open Binding Text

/-! ### Reading the lines -/

/-- Whether the line ends a block. A block without members is closed where it is opened. -/
def closesBlock (line : String) : Bool :=
  (dropEnd? "\x7d" line).isSome

def memberLine? (opening middle closing line : String) : Option EnumMember := do
  let (identifier, rest) ← named? opening line
  return ⟨identifier, ← enclosed? middle closing rest⟩

namespace Target

def enumHead? : Target → String → Option String
  | rust => wordLine? "    pub struct " "(pub u32);"
  | beef => wordLine? "public enum " " : uint32"

def enumMember? : Target → String → Option EnumMember
  | rust => memberLine? "        pub const " ": Self = Self(" ");"
  | beef => memberLine? "\t" " = " ","

def enumBlocks (target : Target) (text : String) : List EnumBlock :=
  (bodies target.enumHead? closesBlock (lines text)).map fun (name, body) =>
    ⟨name, body.filterMap target.enumMember?⟩

end Target

/-- A block whose names are words and whose values are on one line. -/
structure IsBlock (block : EnumBlock) : Prop where
  name : IsIdentifier block.name
  identifiers : ∀ member ∈ block.members, IsIdentifier member.identifier
  values : ∀ member ∈ block.members, '\n' ∉ member.value.toList

variable {block : EnumBlock} {member : EnumMember}

theorem IsBlock.newline_not_mem (h : IsBlock block) (hmember : member ∈ block.members) :
    '\n' ∉ member.identifier.toList ∧ '\n' ∉ member.value.toList :=
  ⟨(h.identifiers member hmember).not_mem rfl, h.values member hmember⟩

theorem memberLine?_append {identifier value middle closing : String} (opening : String)
    (h : IsIdentifier identifier) (hmiddle : EndsWord (middle ++ (value ++ closing))) :
    memberLine? opening middle closing (opening ++ (identifier ++ (middle ++ (value ++ closing)))) =
      some ⟨identifier, value⟩ := by
  simp only [memberLine?, named?_append opening h.2 hmiddle, enclosed?_append, Option.bind_eq_bind,
    Option.bind_some, Option.pure_def]

theorem memberLine?_eq_none {opening middle closing line : String} (h : dropMark? opening line = none) :
    memberLine? opening middle closing line = none := by
  simp only [memberLine?, named?_eq_none h, Option.bind_eq_bind, Option.bind_none]

theorem closesBlock_append (before : String) : closesBlock (before ++ "\x7d") = true := by
  rw [closesBlock, dropEnd?_append]
  rfl

theorem closesBlock_append_of_differ {after : List Char} (h : differ ['\x7d'] after.reverse = true)
    (before : String) : closesBlock (before ++ String.ofList after) = false := by
  have hmark : differ (List.reverse ['\x7d']) after.reverse = true := h
  have hnone : dropEnd? "\x7d" (before ++ String.ofList after) = none :=
    dropEnd?_append_of_differ hmark before
  rw [closesBlock, hnone]
  rfl

/-- The members of a body, behind the line that opens it. -/
theorem filterMap_members {target : Target} {opening : String} {members : List EnumMember}
    {write : EnumMember → String} (hopening : target.enumMember? opening = none)
    (h : ∀ member ∈ members, target.enumMember? (write member) = some member) :
    (opening :: members.map write).filterMap target.enumMember? = members := by
  rw [List.filterMap_cons_none hopening, filterMap_map_eq_map h]
  exact List.map_id _

/-! ### What a block adds -/

/-- A line that begins no block. -/
structure IsPlain (target : Target) (line : String) : Prop where
  enumHead?_eq_none : target.enumHead? line = none
  not_mem : '\n' ∉ line.toList

/-- A line that neither begins a block nor ends one. -/
structure IsInner (target : Target) (line : String) : Prop extends IsPlain target line where
  closesBlock_eq_false : closesBlock line = false

/-- The chunk has one block in it, which is read back as it was. -/
structure Declares (target : Target) (chunk : List String) (block : EnumBlock) : Prop where
  yields : ∃ body, Yields target.enumHead? closesBlock chunk [(block.name, body)] ∧
    body.filterMap target.enumMember? = block.members
  not_mem : ∀ line ∈ chunk, '\n' ∉ line.toList

theorem declares_block {target : Target} {before body : List String} {opening closing : String}
    (hbefore : before.Forall (IsPlain target)) (hopening : target.enumHead? opening = some block.name)
    (hline : '\n' ∉ opening.toList) (hbody : ∀ line ∈ body, IsInner target line)
    (hmembers : body.filterMap target.enumMember? = block.members) (hclosing : IsPlain target closing)
    (hclosed : closesBlock closing = true) :
    Declares target (before ++ opening :: (body ++ [closing])) block := by
  rw [List.forall_iff_forall_mem] at hbefore
  refine ⟨⟨body, ?_, hmembers⟩, fun line hmem => ?_⟩
  · have hstart : Yields target.enumHead? closesBlock before [] :=
      yields_nil fun line hmem => (hbefore line hmem).enumHead?_eq_none
    exact hstart.append (yields_body hopening (fun line hmem => (hbody line hmem).enumHead?_eq_none)
      (fun line hmem => (hbody line hmem).closesBlock_eq_false) hclosing.enumHead?_eq_none hclosed)
  · rw [List.mem_append, List.mem_cons, List.mem_append, List.mem_singleton] at hmem
    rcases hmem with hmem | rfl | hmem | rfl
    · exact (hbefore line hmem).not_mem
    · exact hline
    · exact (hbody line hmem).not_mem
    · exact hclosing.not_mem

namespace LoaderStruct

theorem enumMember_eq (member : EnumMember) :
    enumMember member =
      "        pub const " ++ (member.identifier ++ (": Self = Self(" ++ (member.value ++ ");"))) := by
  unfold enumMember
  simp only [String.append_assoc]

theorem enumMember?_enumMember (h : IsIdentifier member.identifier) :
    Target.enumMember? .rust (enumMember member) = some member := by
  rw [enumMember_eq]
  exact memberLine?_append _ h (endsWord_append rfl _)

theorem isInner_enumMember (h : IsBlock block) (hmember : member ∈ block.members) :
    IsInner .rust (enumMember member) where
  enumHead?_eq_none := by
    rw [enumMember_eq]
    exact wordLine?_eq_none (dropMark?_append_of_differ rfl _)
  not_mem := by
    have hplain := h.newline_not_mem hmember
    simp [enumMember_eq, hplain]
  closesBlock_eq_false := closesBlock_append_of_differ rfl _

def blockAttributes : List String :=
  ["    #[repr(transparent)]", "    #[derive(Debug, Clone, Copy, Default, PartialEq, Eq, Hash)]"]

theorem enumBlock_of_nil (h : block.members = []) :
    enumBlock block = blockAttributes ++ ("    pub struct " ++ (block.name ++ "(pub u32);")) ::
      ([] ++ ["    impl " ++ (block.name ++ (" \x7b" ++ "\x7d"))]) := by
  have hend : " \x7b\x7d" = " \x7b" ++ "\x7d" := rfl
  unfold enumBlock
  simp only [h, hend, String.append_assoc]
  rfl

theorem enumBlock_of_ne_nil (h : block.members ≠ []) :
    enumBlock block = blockAttributes ++ ("    pub struct " ++ (block.name ++ "(pub u32);")) ::
      (("    impl " ++ (block.name ++ " \x7b")) :: block.members.map enumMember ++ ["    \x7d"]) := by
  obtain ⟨member, members, hmembers⟩ := List.exists_cons_of_ne_nil h
  unfold enumBlock
  simp only [hmembers, String.append_assoc]
  rfl

theorem declares_enumBlock (h : IsBlock block) : Declares .rust (enumBlock block) block := by
  have hname := h.name.not_mem (show isIdentifierChar '\n' = false from rfl)
  have hbefore : blockAttributes.Forall (IsPlain .rust) :=
    ⟨⟨wordLine?_eq_none (dropMark?_ofList rfl), by decide⟩,
      wordLine?_eq_none (dropMark?_ofList rfl), by decide⟩
  have hopening : Target.enumHead? .rust ("    pub struct " ++ (block.name ++ "(pub u32);")) =
      some block.name :=
    wordLine?_append _ h.name (endsWord_ofList rfl)
  have hline : '\n' ∉ ("    pub struct " ++ (block.name ++ "(pub u32);")).toList := by simp [hname]
  have himpl (rest : String) (hrest : '\n' ∉ rest.toList) : IsPlain .rust ("    impl " ++ rest) :=
    ⟨wordLine?_eq_none (dropMark?_append_of_differ rfl _), by simp [hrest]⟩
  by_cases hnil : block.members = []
  · have hclosed : closesBlock ("    impl " ++ (block.name ++ (" \x7b" ++ "\x7d"))) = true := by
      simp only [← String.append_assoc]
      exact closesBlock_append _
    rw [enumBlock_of_nil hnil]
    exact declares_block hbefore hopening hline (by simp) (by simp [hnil])
      (himpl _ (by simp [hname])) hclosed
  · have hbody : ∀ line ∈ ("    impl " ++ (block.name ++ " \x7b")) :: block.members.map enumMember,
        IsInner .rust line := by
      refine List.forall_mem_cons.mpr ⟨⟨himpl _ (by simp [hname]), ?_⟩, fun line hmem => ?_⟩
      · rw [← String.append_assoc]
        exact closesBlock_append_of_differ rfl _
      · obtain ⟨member, hmember, rfl⟩ := List.mem_map.mp hmem
        exact isInner_enumMember h hmember
    have himplMember : Target.enumMember? .rust ("    impl " ++ (block.name ++ " \x7b")) = none :=
      memberLine?_eq_none (dropMark?_append_of_differ rfl _)
    have hmembers := filterMap_members himplMember fun member hmember =>
      enumMember?_enumMember (h.identifiers member hmember)
    rw [enumBlock_of_ne_nil hnil]
    exact declares_block hbefore hopening hline hbody hmembers
      ⟨wordLine?_eq_none (dropMark?_ofList rfl), by decide⟩ (closesBlock_append "    ")

end LoaderStruct

namespace StaticExtension

theorem enumMember_eq (member : EnumMember) :
    enumMember member = "\t" ++ (member.identifier ++ (" = " ++ (member.value ++ ","))) := by
  unfold enumMember
  simp only [String.append_assoc]

theorem enumMember?_enumMember (h : IsIdentifier member.identifier) :
    Target.enumMember? .beef (enumMember member) = some member := by
  rw [enumMember_eq]
  exact memberLine?_append _ h (endsWord_append rfl _)

theorem isInner_enumMember (h : IsBlock block) (hmember : member ∈ block.members) :
    IsInner .beef (enumMember member) where
  enumHead?_eq_none := by
    rw [enumMember_eq]
    exact wordLine?_eq_none (dropMark?_append_of_differ rfl _)
  not_mem := by
    have hplain := h.newline_not_mem hmember
    simp [enumMember_eq, hplain]
  closesBlock_eq_false := closesBlock_append_of_differ rfl _

theorem enumBlock_eq (block : EnumBlock) :
    enumBlock block = ["[AllowDuplicates]"] ++ ("public enum " ++ (block.name ++ " : uint32")) ::
      ("\x7b" :: block.members.map enumMember ++ ["\x7d"]) := by
  unfold enumBlock
  simp only [String.append_assoc]
  rfl

theorem declares_enumBlock (h : IsBlock block) : Declares .beef (enumBlock block) block := by
  have hname := h.name.not_mem (show isIdentifierChar '\n' = false from rfl)
  have hopening : Target.enumHead? .beef ("public enum " ++ (block.name ++ " : uint32")) =
      some block.name :=
    wordLine?_append _ h.name (endsWord_ofList rfl)
  have hplain {line : List Char} (hmark : (strip? "public enum ".toList line).isNone = true)
      (hline : '\n' ∉ line) : IsPlain .beef (String.ofList line) :=
    ⟨wordLine?_eq_none (dropMark?_ofList hmark), by rwa [String.toList_ofList]⟩
  have hbody : ∀ line ∈ "\x7b" :: block.members.map enumMember, IsInner .beef line := by
    refine List.forall_mem_cons.mpr ⟨⟨hplain rfl (by decide), rfl⟩, fun line hmem => ?_⟩
    obtain ⟨member, hmember, rfl⟩ := List.mem_map.mp hmem
    exact isInner_enumMember h hmember
  have hbrace : Target.enumMember? .beef "\x7b" = none := memberLine?_eq_none (dropMark?_ofList rfl)
  have hmembers := filterMap_members hbrace fun member hmember =>
    enumMember?_enumMember (h.identifiers member hmember)
  rw [enumBlock_eq]
  exact declares_block (hplain rfl (by decide)) hopening (by simp [hname]) hbody hmembers
    (hplain rfl (by decide)) (closesBlock_append "")

end StaticExtension

/-! ### The artifact -/

namespace Target

variable {target : Target} {names : SharedNames} {blocks : List EnumBlock}

theorem declares_enumBlock (target : Target) (h : IsBlock block) :
    Declares target (target.enumBlock block) block := by
  cases target with
  | rust => exact LoaderStruct.declares_enumBlock h
  | beef => exact StaticExtension.declares_enumBlock h

theorem isPlain_enumsPrologue (target : Target) (hspace : '\n' ∉ names.space.toList) :
    (target.enumsPrologue names).Forall (IsPlain target) := by
  cases target with
  | rust =>
    have hmodule : IsPlain .rust ("pub mod " ++ names.space ++ " \x7b") := by
      rw [String.append_assoc]
      exact ⟨wordLine?_eq_none (dropMark?_append_of_differ rfl _), by simp [hspace]⟩
    exact ⟨⟨wordLine?_eq_none (dropMark?_ofList rfl), by decide⟩,
      ⟨wordLine?_eq_none (dropMark?_ofList rfl), by decide⟩,
      ⟨wordLine?_eq_none (dropMark?_ofList rfl), by decide⟩, hmodule⟩
  | beef =>
    have hnamespace : IsPlain .beef ("namespace " ++ names.space ++ ";") := by
      rw [String.append_assoc]
      exact ⟨wordLine?_eq_none (dropMark?_append_of_differ rfl _), by simp [hspace]⟩
    exact ⟨⟨wordLine?_eq_none (dropMark?_ofList rfl), by decide⟩,
      ⟨wordLine?_eq_none (dropMark?_ofList rfl), by decide⟩, hnamespace⟩

theorem isPlain_enumsEpilogue (target : Target) : ∀ line ∈ target.enumsEpilogue, IsPlain target line := by
  cases target with
  | rust =>
    exact List.forall_mem_singleton.mpr ⟨wordLine?_eq_none (dropMark?_ofList rfl), by decide⟩
  | beef => simp [enumsEpilogue, StaticExtension.enumsEpilogue]

theorem isPlain_blank (target : Target) : IsPlain target "" := by
  cases target with
  | rust => exact ⟨rfl, by decide⟩
  | beef => exact ⟨rfl, by decide⟩

/-- Every block is read back from the artifact, in its order and with its members in theirs. -/
theorem enumBlocks_enums (hspace : '\n' ∉ names.space.toList) (h : ∀ block ∈ blocks, IsBlock block) :
    target.enumBlocks (unlines (target.enums names blocks)) = blocks := by
  have hprologue := List.forall_iff_forall_mem.mp (isPlain_enumsPrologue target hspace)
  have hepilogue := isPlain_enumsEpilogue target
  have hdeclares : ∀ block ∈ blocks, Declares target (target.enumBlock block) block :=
    fun block hblock => declares_enumBlock target (h block hblock)
  choose! body hyields hmembers using fun block hblock => (hdeclares block hblock).yields
  have hseparator : Yields target.enumHead? closesBlock [""] [] :=
    yields_nil (List.forall_mem_singleton.mpr (isPlain_blank target).enumHead?_eq_none)
  have hblocks := Yields.intercalate hseparator hyields
  have hstart : Yields target.enumHead? closesBlock (target.enumsPrologue names) [] :=
    yields_nil fun line hline => (hprologue line hline).enumHead?_eq_none
  have hend : Yields target.enumHead? closesBlock target.enumsEpilogue [] :=
    yields_nil fun line hline => (hepilogue line hline).enumHead?_eq_none
  have hall := ((hstart.append hblocks).append hend).bodies_eq
  have hlines : ∀ line ∈ target.enums names blocks, '\n' ∉ line.toList := by
    intro line hline
    rw [enums, List.mem_append, List.mem_append] at hline
    rcases hline with (hline | hline) | hline
    · exact (hprologue line hline).not_mem
    · rcases mem_intercalate hline with hblank | ⟨chunk, hchunk, hline⟩
      · exact List.mem_singleton.mp hblank ▸ (isPlain_blank target).not_mem
      · obtain ⟨block, hblock, rfl⟩ := List.mem_map.mp hchunk
        exact (hdeclares block hblock).not_mem line hline
    · exact (hepilogue line hline).not_mem
  rw [enumBlocks, lines_unlines hlines, enums, hall, List.nil_append, List.append_nil,
    ← List.map_eq_flatMap, List.map_map]
  calc blocks.map ((fun (name, body) => ⟨name, body.filterMap target.enumMember?⟩) ∘
        fun block => (block.name, body block))
      = blocks.map id := List.map_congr_left fun block hblock => by
        simp only [Function.comp_apply, hmembers block hblock, id]
    _ = blocks := List.map_id _

end Target

/-! ### The blocks of groups -/

/-- A literal that fits in a word is on one line. -/
theorem not_mem_of_fitsWord {literal : String} (h : fitsWord literal = true) : '\n' ∉ literal.toList := by
  intro hmem
  rw [fitsWord] at h
  split at h
  · next digits hdigits =>
    rw [eq_append_of_strip? hdigits, List.mem_append] at hmem
    rw [Bool.and_eq_true, List.all_eq_true] at h
    rcases hmem with hmark | hdigit
    · exact absurd hmark (by decide)
    · exact absurd (h.2 '\n' hdigit) (by decide)
  · rw [Bool.and_eq_true, Bool.and_eq_true, List.all_eq_true] at h
    exact absurd (h.1.2 '\n' hmem) (by decide)

/-- The members that are left out do not matter. -/
theorem isBlock_ofGroup {group : Registry.Group} (hname : IsIdentifier group.name)
    (hmembers : ∀ enumerant ∈ group.members, IsIdentifier (memberIdentifier enumerant.shortName)) :
    IsBlock (.ofGroup group) where
  name := hname
  identifiers member hmember := by
    obtain ⟨enumerant, henumerant, rfl⟩ := List.mem_map.mp hmember
    exact hmembers enumerant (List.mem_filter.mp henumerant).1
  values member hmember := by
    obtain ⟨enumerant, henumerant, rfl⟩ := List.mem_map.mp hmember
    exact not_mem_of_fitsWord (List.mem_filter.mp henumerant).2

end RegistryBindings.Artifact
