import RegistryBindings.Proofs.Artifact.EnumBlocks

/-!
# The lines of the enums

One line begins each block of an enums artifact, whatever characters its names have, and no other line begins one. So
the names of the blocks are seen on the lines that were put together. Those are the lines of the text where no name
has a newline in it.
-/

namespace RegistryBindings.Artifact

open Binding Text

/-! ### The lines that begin blocks -/

theorem filterMap_intercalate {α β : Type} {separator : List α} {read? : α → Option β}
    (h : separator.filterMap read? = []) (chunks : List (List α)) :
    (separator.intercalate chunks).filterMap read? = chunks.flatMap (List.filterMap read?) := by
  induction chunks with
  | nil => simp
  | cons chunk chunks ih =>
    cases chunks with
    | nil => simp
    | cons next chunks =>
      rw [List.intercalate_cons_cons, List.filterMap_append, List.filterMap_append, h, ih, List.append_nil]
      rfl

theorem infix_intercalate {α : Type} {separator chunk : List α} {chunks : List (List α)} (h : chunk ∈ chunks) :
    chunk <:+: separator.intercalate chunks := by
  induction chunks with
  | nil => cases h
  | cons first chunks ih =>
    cases chunks with
    | nil =>
      rw [List.mem_singleton.mp h]
      simp
    | cons next chunks =>
      rw [List.intercalate_cons_cons]
      rcases List.mem_cons.mp h with rfl | hrest
      · rw [List.append_assoc]
        exact (List.prefix_append chunk _).isInfix
      · exact (ih hrest).trans (List.suffix_append _ _).isInfix

namespace Target

/-- What stands before and after the name on the line that begins a block. -/
def blockMarks : Target → String × String
  | rust => ("    pub struct ", "(pub u32);")
  | beef => ("public enum ", " : uint32")

def blockName? (target : Target) (line : String) : Option String :=
  enclosed? target.blockMarks.1 target.blockMarks.2 line

def emptyBlock (name : String) : Target → List String
  | rust => ["    pub struct " ++ name ++ "(pub u32);", "    impl " ++ name ++ " \x7b\x7d"]
  | beef => ["public enum " ++ name ++ " : uint32", "\x7b", "\x7d"]

variable {target : Target} {block : EnumBlock} {blocks : List EnumBlock}

/-- A block has one line that begins a block, between lines that begin none. -/
theorem filterMap_blockName? {before after : List String} {head name : String}
    (hhead : target.blockName? head = some name) (hbefore : ∀ line ∈ before, target.blockName? line = none)
    (hafter : ∀ line ∈ after, target.blockName? line = none) :
    (before ++ head :: after).filterMap target.blockName? = [name] := by
  rw [List.filterMap_append, List.filterMap_eq_nil_iff.mpr hbefore, List.filterMap_cons_some hhead,
    List.filterMap_eq_nil_iff.mpr hafter]
  rfl

theorem blockName?_append (target : Target) {before : List Char}
    (h : differ target.blockMarks.1.toList before = true) (rest : String) :
    target.blockName? (String.ofList before ++ rest) = none := by
  have hnone := dropMark?_append_of_differ h rest
  rw [String.ofList_toList] at hnone
  exact enclosed?_of_dropMark? hnone

theorem blockName?_ofList (target : Target) {line : List Char}
    (h : (strip? target.blockMarks.1.toList line).isNone = true) : target.blockName? (String.ofList line) = none := by
  have hnone := dropMark?_ofList h
  rw [String.ofList_toList] at hnone
  exact enclosed?_of_dropMark? hnone

theorem blockNames_rustBlock (block : EnumBlock) :
    (LoaderStruct.enumBlock block).filterMap (blockName? .rust) = [block.name] := by
  have hhead : blockName? .rust ("    pub struct " ++ (block.name ++ "(pub u32);")) = some block.name :=
    enclosed?_append _ _ _
  have himpl (rest : String) : blockName? .rust ("    impl " ++ rest) = none := blockName?_append .rust rfl rest
  have hattributes : ∀ line ∈ LoaderStruct.blockAttributes, blockName? .rust line = none :=
    List.forall_iff_forall_mem.mp ⟨blockName?_ofList .rust rfl, blockName?_ofList .rust rfl⟩
  by_cases hnil : block.members = []
  · rw [LoaderStruct.enumBlock_of_nil hnil]
    exact filterMap_blockName? hhead hattributes (List.forall_mem_singleton.mpr (himpl _))
  · rw [LoaderStruct.enumBlock_of_ne_nil hnil]
    refine filterMap_blockName? hhead hattributes fun line hline => ?_
    rcases List.mem_append.mp hline with hbody | hend
    · rcases List.mem_cons.mp hbody with rfl | hmember
      · exact himpl _
      · obtain ⟨member, -, rfl⟩ := List.mem_map.mp hmember
        rw [LoaderStruct.enumMember_eq]
        exact blockName?_append .rust rfl _
    · rw [List.mem_singleton.mp hend]
      exact blockName?_ofList .rust rfl

theorem blockNames_beefBlock (block : EnumBlock) :
    (StaticExtension.enumBlock block).filterMap (blockName? .beef) = [block.name] := by
  have hhead : blockName? .beef ("public enum " ++ (block.name ++ " : uint32")) = some block.name :=
    enclosed?_append _ _ _
  have hattribute : blockName? .beef "[AllowDuplicates]" = none := blockName?_ofList .beef rfl
  rw [StaticExtension.enumBlock_eq]
  refine filterMap_blockName? hhead (List.forall_mem_singleton.mpr hattribute) fun line hline => ?_
  rcases List.mem_append.mp hline with hbody | hend
  · rcases List.mem_cons.mp hbody with rfl | hmember
    · exact blockName?_ofList .beef rfl
    · obtain ⟨member, -, rfl⟩ := List.mem_map.mp hmember
      rw [StaticExtension.enumMember_eq]
      exact blockName?_append .beef rfl _
  · rw [List.mem_singleton.mp hend]
    exact blockName?_ofList .beef rfl

theorem blockName?_enumsPrologue (target : Target) (names : SharedNames) :
    ∀ line ∈ target.enumsPrologue names, target.blockName? line = none := by
  refine List.forall_iff_forall_mem.mp ?_
  cases target with
  | rust =>
    have hmodule : blockName? .rust ("pub mod " ++ names.space ++ " \x7b") = none := by
      rw [String.append_assoc]
      exact blockName?_append .rust rfl _
    exact ⟨blockName?_ofList .rust rfl, blockName?_ofList .rust rfl, blockName?_ofList .rust rfl, hmodule⟩
  | beef =>
    have hnamespace : blockName? .beef ("namespace " ++ names.space ++ ";") = none := by
      rw [String.append_assoc]
      exact blockName?_append .beef rfl _
    exact ⟨blockName?_ofList .beef rfl, blockName?_ofList .beef rfl, hnamespace⟩

theorem blockName?_enumsEpilogue (target : Target) : ∀ line ∈ target.enumsEpilogue, target.blockName? line = none := by
  cases target with
  | rust => exact List.forall_mem_singleton.mpr (blockName?_ofList .rust rfl)
  | beef => exact List.forall_mem_nil _

/-- The lines around the blocks begin none, whatever the name is that encloses them. -/
theorem blockNames_enums (target : Target) (names : SharedNames) (blocks : List EnumBlock) :
    (target.enums names blocks).filterMap target.blockName? = blocks.map (·.name) := by
  have hblank : [""].filterMap target.blockName? = [] := by
    cases target <;> exact List.filterMap_cons_none (blockName?_ofList _ rfl)
  have hblock (block : EnumBlock) : (target.enumBlock block).filterMap target.blockName? = [block.name] := by
    cases target with
    | rust => exact blockNames_rustBlock block
    | beef => exact blockNames_beefBlock block
  rw [enums, List.filterMap_append, List.filterMap_append,
    List.filterMap_eq_nil_iff.mpr (target.blockName?_enumsPrologue names),
    List.filterMap_eq_nil_iff.mpr target.blockName?_enumsEpilogue, filterMap_intercalate hblank, List.flatMap_map,
    List.map_eq_flatMap, List.nil_append, List.append_nil]
  exact List.flatMap_congr fun block _ => hblock block

theorem emptyBlock_infix_enums (target : Target) (names : SharedNames) {name : String} (h : ⟨name, []⟩ ∈ blocks) :
    target.emptyBlock name <:+: target.enums names blocks := by
  have hblock : target.emptyBlock name <:+: target.enumBlock ⟨name, []⟩ := by
    cases target with
    | rust => exact ⟨LoaderStruct.blockAttributes, [], rfl⟩
    | beef => exact ⟨["[AllowDuplicates]"], [], rfl⟩
  have hblocks : target.enumBlock ⟨name, []⟩ <:+: [""].intercalate (blocks.map target.enumBlock) :=
    infix_intercalate (List.mem_map_of_mem h)
  exact (hblock.trans hblocks).trans (List.infix_append _ _ _)

/-! ### Lines without newlines -/

theorem newline_not_mem_enumBlock (target : Target) (hname : '\n' ∉ block.name.toList)
    (hmembers : ∀ member ∈ block.members, '\n' ∉ member.identifier.toList ∧ '\n' ∉ member.value.toList) :
    ∀ line ∈ target.enumBlock block, '\n' ∉ line.toList := by
  intro line hline
  cases target with
  | rust =>
    have hmember : ∀ member ∈ block.members, '\n' ∉ (LoaderStruct.enumMember member).toList := by
      intro member hmem
      simp [LoaderStruct.enumMember_eq, hmembers member hmem]
    have hattributes : ∀ line ∈ LoaderStruct.blockAttributes, '\n' ∉ line.toList := by decide
    by_cases hnil : block.members = []
    · rw [enumBlock, LoaderStruct.enumBlock_of_nil hnil] at hline
      simp only [List.nil_append, List.mem_append, List.mem_cons, List.not_mem_nil, or_false] at hline
      rcases hline with hline | rfl | rfl
      · exact hattributes line hline
      · simp [hname]
      · simp [hname]
    · rw [enumBlock, LoaderStruct.enumBlock_of_ne_nil hnil] at hline
      simp only [List.mem_append, List.mem_cons, List.mem_map, List.not_mem_nil, or_false] at hline
      rcases hline with hline | rfl | (rfl | ⟨member, hmem, rfl⟩) | rfl
      · exact hattributes line hline
      · simp [hname]
      · simp [hname]
      · exact hmember member hmem
      · decide
  | beef =>
    rw [enumBlock, StaticExtension.enumBlock_eq] at hline
    simp only [List.mem_append, List.mem_cons, List.mem_map, List.not_mem_nil, or_false] at hline
    rcases hline with rfl | rfl | (rfl | ⟨member, hmem, rfl⟩) | rfl
    · decide
    · simp [hname]
    · decide
    · simp [StaticExtension.enumMember_eq, hmembers member hmem]
    · decide

theorem newline_not_mem_enums {names : SharedNames} (hspace : '\n' ∉ names.space.toList)
    (hblocks : ∀ block ∈ blocks, '\n' ∉ block.name.toList ∧
      ∀ member ∈ block.members, '\n' ∉ member.identifier.toList ∧ '\n' ∉ member.value.toList) :
    ∀ line ∈ target.enums names blocks, '\n' ∉ line.toList := by
  have hprologue := List.forall_iff_forall_mem.mp (isPlain_enumsPrologue target hspace)
  intro line hline
  rw [enums, List.mem_append, List.mem_append] at hline
  rcases hline with (hline | hline) | hline
  · exact (hprologue line hline).not_mem
  · rcases mem_intercalate hline with hblank | ⟨chunk, hchunk, hline⟩
    · exact List.mem_singleton.mp hblank ▸ (isPlain_blank target).not_mem
    · obtain ⟨block, hblock, rfl⟩ := List.mem_map.mp hchunk
      exact newline_not_mem_enumBlock target (hblocks block hblock).1 (hblocks block hblock).2 line hline
  · exact (isPlain_enumsEpilogue target line hline).not_mem

end Target

end RegistryBindings.Artifact
