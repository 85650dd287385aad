import RegistryBindings.Proofs.Artifact.EnumsLayout
import RegistryBindings.Proofs.Binding.Literal

/-!
# The literals of enum blocks

The enum types of both languages are words of 32 bits. A block leaves out what does not fit, so whatever literal it
shows denotes a number below two to the thirty-second. The names of a version do not matter for that. Where they are
words, the literals are those that are read back from the text.
-/

namespace RegistryBindings.Artifact

open Binding Text

/-- What is known of a literal from whether it fits in a word. -/
structure FitsExactly (literal : String) : Prop where
  iff : fitsWord literal = true ↔ IsWordLiteral literal
  zeros : IsDecimal literal.toList →
    ∀ count, fitsWord (String.ofList (List.replicate count '0') ++ literal) = fitsWord literal
  mark_or_digit : fitsWord literal = true → ∀ c ∈ literal.toList, isHexDigit c = true ∨ c = 'x'
  not_foreign : fitsWord literal = true → ∀ c ∈ literal.toList, ¬ IsForeign c

theorem fitsExactly (literal : String) : FitsExactly literal where
  iff := fitsWord_iff
  zeros := fitsWord_zeros_append
  mark_or_digit h _ := isHexDigit_or_eq_mark h
  not_foreign h _ hc := not_isForeign (isHexDigit_or_eq_mark h hc)

def ShowsWords (block : EnumBlock) : Prop :=
  ∀ member ∈ block.members, ∃ value, Denotes member.value value ∧ value < 2 ^ 32

theorem showsWords_ofGroup (group : Registry.Group) : ShowsWords (.ofGroup group) := by
  intro member hmember
  obtain ⟨enumerant, henumerant, rfl⟩ := List.mem_map.mp hmember
  exact exists_denotes_of_fitsWord (List.mem_filter.mp henumerant).2

/-- The text of an enums artifact is made of blocks with small literals. -/
structure ShowsOnlyWords (target : Target) (names : SharedNames) (version : Registry.Version) (text : String) :
    Prop where
  blocks : ∃ blocks, text = unlines (target.enums names blocks) ∧ ∀ block ∈ blocks, ShowsWords block
  /-- Where all names are words, these are the blocks that the text has. -/
  read_back : '\n' ∉ names.space.toList → HasWords version → ∀ block ∈ target.enumBlocks text, ShowsWords block

theorem showsOnlyWords_ofVersion (version : Registry.Version) (config : Config) :
    ShowsOnlyWords config.target config.names version (Bindings.ofVersion version config).enums where
  blocks := ⟨version.groupList.map .ofGroup, rfl, List.forall_mem_map.mpr fun group _ => showsWords_ofGroup group⟩
  read_back hspace hwords := by
    have hblocks : config.target.enumBlocks (Bindings.ofVersion version config).enums =
        version.groupList.map .ofGroup := (enumsLayout_ofVersion hspace hwords).read_back
    rw [hblocks]
    exact List.forall_mem_map.mpr fun group _ => showsWords_ofGroup group

/-- A literal fits in a word if it is a decimal number below two to the thirty-second or a hexadecimal one of up to
eight digits, and no other literal does. So each literal in an enum block of either language denotes a number of a
word. -/
theorem fitsExactly_and_showsOnlyWords :
    (∀ literal, FitsExactly literal) ∧ ∀ (version : Registry.Version) (config : Config),
      ShowsOnlyWords config.target config.names version (Bindings.ofVersion version config).enums :=
  ⟨fitsExactly, showsOnlyWords_ofVersion⟩

end RegistryBindings.Artifact
