import RegistryBindings.Proofs.Artifact.EnumBlocks
import RegistryBindings.Proofs.Registry.Edits

/-!
# How an enums artifact is laid out

Between its first lines and its last an artifact has one block for each group, in the order of the bytes of
their names, and one blank line between two blocks. A block can be read by itself, so the whole can, and what
is read decides the text: two versions whose blocks have the same names and members have one artifact, and no
others do.
-/

namespace RegistryBindings.Artifact

open Binding Text

/-! ### The order of names -/

def utf8 (text : String) : List UInt8 :=
  text.toUTF8.data.toList

/-- A text of characters of one byte each. -/
def IsAscii (text : String) : Prop :=
  ∀ c ∈ text.toList, c.toNat ≤ 127

theorem utf8_of_isAscii {text : String} (h : IsAscii text) :
    utf8 text = text.toList.map fun c => UInt8.ofNat c.toNat := by
  have hbytes : utf8 text = text.toList.flatMap String.utf8EncodeChar := by
    rw [utf8, String.toUTF8, ← String.utf8Encode_toList, List.utf8Encode, List.toList_data_toByteArray]
  rw [hbytes, List.map_eq_flatMap]
  refine List.flatMap_congr fun c hc => ?_
  rw [String.utf8EncodeChar]
  exact if_pos (h c hc)

theorem map_ofNat_lt_iff {first second : List Char} (hfirst : ∀ c ∈ first, c.toNat ≤ 127)
    (hsecond : ∀ c ∈ second, c.toNat ≤ 127) :
    first.map (fun c => UInt8.ofNat c.toNat) < second.map (fun c => UInt8.ofNat c.toNat) ↔ first < second := by
  have hvalue {c : Char} (hc : c.toNat ≤ 127) : (UInt8.ofNat c.toNat).toNat = c.toNat :=
    Nat.mod_eq_of_lt (Nat.lt_of_le_of_lt hc (by decide))
  induction first generalizing second with
  | nil => cases second <;> simp
  | cons c first ih =>
    cases second with
    | nil => simp
    | cons d second =>
      obtain ⟨hc, hfirst⟩ := List.forall_mem_cons.mp hfirst
      obtain ⟨hd, hsecond⟩ := List.forall_mem_cons.mp hsecond
      have hlt : UInt8.ofNat c.toNat < UInt8.ofNat d.toNat ↔ c < d := by
        rw [UInt8.lt_iff_toNat_lt, hvalue hc, hvalue hd]
        exact Iff.rfl
      have heq : UInt8.ofNat c.toNat = UInt8.ofNat d.toNat ↔ c = d := by
        rw [← UInt8.toNat_inj, hvalue hc, hvalue hd, Char.toNat_inj]
      have hrest := ih hfirst hsecond
      simp only [List.map_cons, List.cons_lt_cons_iff, hlt, heq, hrest]

/-- Texts of one-byte characters are in the order of their bytes. -/
theorem utf8_lt_iff {first second : String} (hfirst : IsAscii first) (hsecond : IsAscii second) :
    utf8 first < utf8 second ↔ first < second := by
  rw [utf8_of_isAscii hfirst, utf8_of_isAscii hsecond, map_ofNat_lt_iff hfirst hsecond, String.lt_iff]

theorem isAscii_of_isIdentifier {name : String} (h : IsIdentifier name) : IsAscii name := by
  have hbelow {c last : Char} (hc : c.val ≤ last.val) (hlast : last.toNat ≤ 127) : c.toNat ≤ 127 :=
    Nat.le_trans (UInt32.le_iff_toNat_le.mp hc) hlast
  intro c hc
  rcases Bool.or_eq_true_iff.mp (h.2 c hc) with halphanum | hunderscore
  · rcases Bool.or_eq_true_iff.mp halphanum with halpha | hdigit
    · rcases Bool.or_eq_true_iff.mp halpha with hupper | hlower
      · exact hbelow (of_decide_eq_true hupper).2 (by decide)
      · exact hbelow (of_decide_eq_true (Bool.and_eq_true_iff.mp hlower).2) (by decide)
    · exact hbelow (of_decide_eq_true (Bool.and_eq_true_iff.mp hdigit).2) (by decide)
  · rw [eq_of_beq hunderscore]
    decide

theorem pairwise_lt_groupList (version : Registry.Version) :
    (version.groupList.map (·.name)).Pairwise (· < ·) := by
  have hkeys : version.groups.byName.keys.Pairwise fun a b => compare a b = .lt := Std.ExtTreeMap.ordered_keys
  rw [Registry.Version.names_groupList]
  exact hkeys.imp fun h => compareOfLessAndEq_eq_lt.mp h

/-! ### Blank lines -/

def IsBlankLine (line : String) : Prop :=
  ∀ c ∈ line.toList, isBlank c = true

theorem isBlankLine_append {first second : String} :
    IsBlankLine (first ++ second) ↔ IsBlankLine first ∧ IsBlankLine second := by
  rw [IsBlankLine, String.toList_append, List.forall_mem_append, IsBlankLine, IsBlankLine]

theorem not_isBlankLine_ofList {line : List Char} (h : line.all isBlank = false) :
    ¬ IsBlankLine (String.ofList line) := by
  rw [IsBlankLine, String.toList_ofList, ← List.all_eq_true, h]
  exact Bool.false_ne_true

/-- Fixed text at the beginning of a line makes it visible. -/
theorem not_isBlankLine_append {mark : List Char} (h : mark.all isBlank = false) (rest : String) :
    ¬ IsBlankLine (String.ofList mark ++ rest) := fun hblank =>
  not_isBlankLine_ofList h (isBlankLine_append.mp hblank).1

theorem unlines_intercalate (chunks : List (List String)) :
    unlines ([""].intercalate chunks) = "\n".intercalate (chunks.map unlines) := by
  induction chunks with
  | nil => rfl
  | cons chunk chunks ih =>
    cases chunks with
    | nil => simp
    | cons next chunks =>
      have hblank : unlines [""] = "\n" := rfl
      rw [List.intercalate_cons_cons, unlines_append, unlines_append, ih, hblank]
      simp only [List.map_cons, String.intercalate_cons_cons]

namespace Target

variable {target : Target} {names : SharedNames} {block : EnumBlock}

theorem not_isBlankLine_enumBlock {line : String} (h : line ∈ target.enumBlock block) : ¬ IsBlankLine line := by
  cases target with
  | rust =>
    have hattributes : ∀ line ∈ LoaderStruct.blockAttributes, ¬ IsBlankLine line :=
      List.forall_mem_cons.mpr ⟨not_isBlankLine_ofList rfl,
        List.forall_mem_singleton.mpr (not_isBlankLine_ofList rfl)⟩
    by_cases hnil : block.members = []
    · rw [enumBlock, LoaderStruct.enumBlock_of_nil hnil] at h
      simp only [List.nil_append, List.mem_append, List.mem_cons, List.not_mem_nil, or_false] at h
      rcases h with h | rfl | rfl
      · exact hattributes line h
      · exact not_isBlankLine_append rfl _
      · exact not_isBlankLine_append rfl _
    · rw [enumBlock, LoaderStruct.enumBlock_of_ne_nil hnil] at h
      simp only [List.mem_append, List.mem_cons, List.mem_map, List.not_mem_nil, or_false] at h
      rcases h with h | rfl | (rfl | ⟨member, -, rfl⟩) | rfl
      · exact hattributes line h
      · exact not_isBlankLine_append rfl _
      · exact not_isBlankLine_append rfl _
      · rw [LoaderStruct.enumMember_eq]
        exact not_isBlankLine_append rfl _
      · exact not_isBlankLine_ofList rfl
  | beef =>
    rw [enumBlock, StaticExtension.enumBlock_eq] at h
    simp only [List.mem_append, List.mem_cons, List.mem_map, List.not_mem_nil, or_false] at h
    rcases h with rfl | rfl | (rfl | ⟨member, -, rfl⟩) | rfl
    · exact not_isBlankLine_ofList rfl
    · exact not_isBlankLine_append rfl _
    · exact not_isBlankLine_ofList rfl
    · rw [StaticExtension.enumMember_eq, isBlankLine_append, isBlankLine_append]
      exact fun hblank => not_isBlankLine_append rfl _ hblank.2.2
    · exact not_isBlankLine_ofList rfl

theorem lines_enumBlock (target : Target) (h : IsBlock block) :
    lines (unlines (target.enumBlock block)) = target.enumBlock block :=
  lines_unlines (declares_enumBlock target h).not_mem

/-- A block by itself is read back as it was. -/
theorem enumBlocks_enumBlock (target : Target) (h : IsBlock block) :
    target.enumBlocks (unlines (target.enumBlock block)) = [block] := by
  obtain ⟨body, hyields, hmembers⟩ := (declares_enumBlock target h).yields
  rw [enumBlocks, lines_enumBlock target h, hyields.bodies_eq]
  exact congrArg (fun members => [EnumBlock.mk block.name members]) hmembers

theorem unlines_enums (target : Target) (names : SharedNames) (blocks : List EnumBlock) :
    unlines (target.enums names blocks) = unlines (target.enumsPrologue names) ++
      "\n".intercalate (blocks.map fun block => unlines (target.enumBlock block)) ++
        unlines target.enumsEpilogue := by
  rw [enums, unlines_append, unlines_append, unlines_intercalate, List.map_map]
  rfl

theorem not_isBlankLine_enumsEpilogue (target : Target) :
    ∀ line ∈ lines (unlines target.enumsEpilogue), ¬ IsBlankLine line := by
  rw [lines_unlines fun line hline => (isPlain_enumsEpilogue target line hline).not_mem]
  cases target with
  | rust => exact List.forall_mem_singleton.mpr (not_isBlankLine_ofList rfl)
  | beef => exact List.forall_mem_nil _

end Target

/-! ### The layout -/

/-- A word of letters, digits and underscores. Unlike an identifier it may begin with a digit. -/
def IsShortName (name : String) : Prop :=
  name ≠ "" ∧ ∀ c ∈ name.toList, isIdentifierChar c = true

instance (name : String) : Decidable (IsShortName name) :=
  decidable_of_iff (name ≠ "" ∧ name.toList.all isIdentifierChar = true) (by simp [IsShortName])

theorem isIdentifier_memberIdentifier {shortName : String} (h : IsShortName shortName) :
    IsIdentifier (memberIdentifier shortName) := by
  have hchars := h.2
  rw [memberIdentifier]
  split
  · next c rest hlist =>
    split
    · refine ⟨⟨'_', by simp, by decide⟩, fun d hd => ?_⟩
      rw [String.toList_append, List.mem_append] at hd
      rcases hd with hmark | hword
      · rw [List.mem_singleton.mp hmark]
        decide
      · exact hchars d hword
    · next hdigit => exact ⟨⟨c, by rw [hlist]; rfl, by simpa using hdigit⟩, hchars⟩
  · next hnil => exact absurd (String.toList_eq_nil_iff.mp hnil) h.1

structure HasWords (version : Registry.Version) : Prop where
  groups : ∀ group ∈ version.groupList, IsIdentifier group.name
  members : ∀ group ∈ version.groupList, ∀ enumerant ∈ group.members, IsShortName enumerant.shortName

theorem HasWords.isBlock_ofGroup {version : Registry.Version} (h : HasWords version) {group : Registry.Group}
    (hgroup : group ∈ version.groupList) : IsBlock (.ofGroup group) :=
  Artifact.isBlock_ofGroup (h.groups group hgroup) fun enumerant henumerant =>
    isIdentifier_memberIdentifier (h.members group hgroup enumerant henumerant)

/-- A group's members as an artifact declares them: those that fit in a word. -/
def declaredMembers (group : Registry.Group) : List EnumMember :=
  (group.members.filter fun enumerant => fitsWord enumerant.value).map fun enumerant =>
    ⟨memberIdentifier enumerant.shortName, enumerant.value⟩

/-- The text has a block for each of the groups and nothing else between its first lines and its last. -/
structure EnumsLayout (target : Target) (names : SharedNames) (groups : List Registry.Group)
    (text : String) : Prop where
  /-- A newline of its own stands between two blocks. -/
  text_eq : text = unlines (target.enumsPrologue names) ++
    "\n".intercalate (groups.map fun group => unlines (target.enumBlock (.ofGroup group))) ++
      unlines target.enumsEpilogue
  ascending : groups.Pairwise fun first second => utf8 first.name < utf8 second.name
  blocks_not_blank : ∀ group ∈ groups,
    ∀ line ∈ lines (unlines (target.enumBlock (.ofGroup group))), ¬ IsBlankLine line
  epilogue_not_blank : ∀ line ∈ lines (unlines target.enumsEpilogue), ¬ IsBlankLine line
  /-- A block is read without the others. -/
  declares : ∀ group ∈ groups,
    target.enumBlocks (unlines (target.enumBlock (.ofGroup group))) = [⟨group.name, declaredMembers group⟩]
  read_back : target.enumBlocks text = groups.map fun group => ⟨group.name, declaredMembers group⟩

variable {config : Config} {version : Registry.Version}

theorem enumsLayout_ofVersion (hspace : '\n' ∉ config.names.space.toList) (h : HasWords version) :
    EnumsLayout config.target config.names version.groupList (Bindings.ofVersion version config).enums where
  text_eq := by
    have htext := Target.unlines_enums config.target config.names (version.groupList.map .ofGroup)
    rw [List.map_map] at htext
    exact htext
  ascending := by
    have hnames := List.pairwise_map.mp (pairwise_lt_groupList version)
    refine hnames.imp_of_mem fun hfirst hsecond hlt => ?_
    exact (utf8_lt_iff (isAscii_of_isIdentifier (h.groups _ hfirst))
      (isAscii_of_isIdentifier (h.groups _ hsecond))).mpr hlt
  blocks_not_blank group hgroup line hline := by
    rw [Target.lines_enumBlock config.target (h.isBlock_ofGroup hgroup)] at hline
    exact Target.not_isBlankLine_enumBlock hline
  epilogue_not_blank := Target.not_isBlankLine_enumsEpilogue config.target
  declares group hgroup := Target.enumBlocks_enumBlock config.target (h.isBlock_ofGroup hgroup)
  read_back := Target.enumBlocks_enums hspace (List.forall_mem_map.mpr fun _ hgroup => h.isBlock_ofGroup hgroup)

/-- The enums artifact of a version has its groups in the order of their bytes, each in a block that can be
read by itself, with one blank line between two blocks. Two versions have the same artifact if and only if
their groups have the same names and declare the same members. -/
theorem enums_eq_enums_iff (hspace : '\n' ∉ config.names.space.toList) (h : HasWords version) :
    EnumsLayout config.target config.names version.groupList (Bindings.ofVersion version config).enums ∧
      ∀ other, HasWords other →
        ((Bindings.ofVersion version config).enums = (Bindings.ofVersion other config).enums ↔
          (version.groupList.map fun group => (group.name, declaredMembers group)) =
            other.groupList.map fun group => (group.name, declaredMembers group)) := by
  refine ⟨enumsLayout_ofVersion hspace h, fun other hother => ⟨fun heq => ?_, fun heq => ?_⟩⟩
  · have hblocks := (enumsLayout_ofVersion hspace h).read_back
    rw [heq, (enumsLayout_ofVersion hspace hother).read_back] at hblocks
    have hpairs := congrArg (List.map fun block : EnumBlock => (block.name, block.members)) hblocks
    rw [List.map_map, List.map_map] at hpairs
    exact hpairs.symm
  · have hblocks := congrArg (List.map fun (pair : String × List EnumMember) => EnumBlock.mk pair.1 pair.2) heq
    rw [List.map_map, List.map_map] at hblocks
    exact congrArg (fun blocks => unlines (config.target.enums config.names blocks)) hblocks

/-- A version whose groups were added out of order. One of them has nothing that fits in a word. -/
def mixedVersion : Registry.Version :=
  ((({ api := "gl", name := "GL_VERSION_1_0", number := "1.0" } : Registry.Version).addGroup
    ⟨"Zone", [⟨"GL_2D", "2D", "0x0600"⟩, ⟨"GL_TIMEOUT_IGNORED", "TIMEOUT_IGNORED", "0xFFFFFFFFFFFFFFFF"⟩]⟩).addGroup
      ⟨"Emptied", [⟨"GL_ALL", "ALL", "-1"⟩]⟩).addGroup ⟨"Area", [⟨"GL_LINE", "LINE", "0x1B01"⟩]⟩

def narrowVersion : Registry.Version :=
  ((({ api := "gl", name := "GL_VERSION_1_0", number := "1.0" } : Registry.Version).addGroup
    ⟨"Zone", [⟨"GL_2D", "2D", "0x0600"⟩]⟩).addGroup ⟨"Emptied", []⟩).addGroup
      ⟨"Area", [⟨"GL_LINE", "LINE", "0x1B01"⟩]⟩

theorem hasWords_mixed : HasWords mixedVersion := by
  constructor <;> decide +kernel

theorem hasWords_narrow : HasWords narrowVersion := by
  constructor <;> decide +kernel

theorem enums_eq_enums_mixed :
    (Bindings.ofVersion mixedVersion {}).enums = (Bindings.ofVersion narrowVersion {}).enums ∧
      Target.enumBlocks .rust (Bindings.ofVersion mixedVersion {}).enums =
        [⟨"Area", [⟨"LINE", "0x1B01"⟩]⟩, ⟨"Emptied", []⟩, ⟨"Zone", [⟨"_2D", "0x0600"⟩]⟩] := by
  have hspace : '\n' ∉ ({} : Config).names.space.toList := by decide
  have hmixed := enums_eq_enums_iff hspace hasWords_mixed
  refine ⟨(hmixed.2 narrowVersion hasWords_narrow).mpr (by decide +kernel), ?_⟩
  exact hmixed.1.read_back.trans (by decide +kernel)

end RegistryBindings.Artifact
