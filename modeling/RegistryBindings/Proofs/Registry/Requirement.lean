import Mathlib.Data.List.Induction
import RegistryBindings.Registry.Availability

/-!
# Which names a version requires

The versions are put together feature by feature, with a set of names that is carried along and a copy of
it that the selected extensions add to. What comes out does not need that story: a name is required by a
version if the last block that mentions it, in the features up to the version's own, is a `require`
block, or if a selected extension requires it. `Declarations.Requires` says so for one name, and
`versions_registry` says that the versions are the ones this law gives.
-/

namespace RegistryBindings.Registry

/-- A block for no profile in particular, or for the selected one, and for no interface in particular, or
for a selected one. -/
def InterfaceBlock.Applicable (block : InterfaceBlock) (selection : Selection) : Prop :=
  (∀ profile ∈ block.profile?, selection.profile? = some profile) ∧
    ∀ api ∈ block.api?, api ∈ selection.apis

theorem InterfaceBlock.applies_iff {block : InterfaceBlock} {selection : Selection} :
    block.applies selection = true ↔ block.Applicable selection := by
  rw [applies, Applicable, Bool.and_eq_true, Selection.admitsProfile_iff, Selection.admitsApi_iff]

instance (block : InterfaceBlock) (selection : Selection) : Decidable (block.Applicable selection) :=
  decidable_of_iff _ block.applies_iff

/-- The kind of the last block that mentions the name. `names` says which names of a block are meant,
those of its enumerants or those of its commands. -/
def lastMention? (names : InterfaceBlock → List String) (blocks : List InterfaceBlock) (name : String) :
    Option BlockKind :=
  (blocks.filter fun block => name ∈ names block).getLast?.map (·.kind)

namespace Declarations

variable (declarations : Declarations) (selection : Selection)

def selectedFeatures : List Feature :=
  declarations.features.filter fun feature => feature.api ∈ selection.apis

/-- The applicable blocks of the first features that give versions, in the order of the document. -/
def appliedBlocks (count : Nat) : List InterfaceBlock :=
  ((declarations.selectedFeatures selection).take count).flatMap fun feature =>
    feature.blocks.filter fun block => block.Applicable selection

/-- Whether an extension that is asked for, and that a selected interface may use, requires the name. -/
def RequiredByExtension (names : InterfaceBlock → List String) (name : String) : Prop :=
  ∃ extension ∈ declarations.extensions,
    extension.name ∈ selection.extensions ∧ (∃ api ∈ extension.supported, api ∈ selection.apis) ∧
      ∃ block ∈ extension.blocks,
        block.kind = .require ∧ block.Applicable selection ∧ name ∈ names block

/-- Whether the version of the last of the first `count` features requires the name. -/
def Requires (names : InterfaceBlock → List String) (count : Nat) (name : String) : Prop :=
  lastMention? names (declarations.appliedBlocks selection count) name = some .require ∨
    declarations.RequiredByExtension selection names name

instance (names : InterfaceBlock → List String) (count : Nat) (name : String) :
    Decidable (declarations.Requires selection names count name) :=
  inferInstanceAs (Decidable (_ ∨ ∃ extension ∈ declarations.extensions,
    extension.name ∈ selection.extensions ∧ (∃ api ∈ extension.supported, api ∈ selection.apis) ∧
      ∃ block ∈ extension.blocks,
        block.kind = .require ∧ block.Applicable selection ∧ name ∈ names block))

/-- The version that the law gives a feature, which is the last of the first `count`. -/
def lawfulVersion (count : Nat) (feature : Feature) : Version where
  api := feature.api
  name := feature.name
  number := feature.number
  groups :=
    (declarations.memberships.filter fun membership =>
      declarations.Requires selection (·.enums) count membership.2.name).foldl enroll ∅
  commands :=
    declarations.commands.toList.filter fun command =>
      declarations.Requires selection (·.commands) count command.name

end Declarations

/-! ### What a run of blocks does to a name -/

def foldBlocks (names : InterfaceBlock → List String) (set : Std.ExtTreeSet String)
    (blocks : List InterfaceBlock) : Std.ExtTreeSet String :=
  blocks.foldl (fun set block => block.kind.apply (names block) set) set

theorem Required.applyAll_eq (required : Required) (blocks : List InterfaceBlock) :
    required.applyAll blocks =
      ⟨foldBlocks (·.enums) required.enums blocks, foldBlocks (·.commands) required.commands blocks⟩ := by
  induction blocks generalizing required with
  | nil => rfl
  | cons block blocks ih => exact ih (required.apply block)

theorem Required.applyAll_append (required : Required) (blocks more : List InterfaceBlock) :
    required.applyAll (blocks ++ more) = (required.applyAll blocks).applyAll more :=
  List.foldl_append

theorem foldBlocks_append_singleton (names : InterfaceBlock → List String) (set : Std.ExtTreeSet String)
    (blocks : List InterfaceBlock) (block : InterfaceBlock) :
    foldBlocks names set (blocks ++ [block]) =
      block.kind.apply (names block) (foldBlocks names set blocks) :=
  List.foldl_append

theorem lastMention?_append_singleton (names : InterfaceBlock → List String)
    (blocks : List InterfaceBlock) (block : InterfaceBlock) (name : String) :
    lastMention? names (blocks ++ [block]) name =
      if name ∈ names block then some block.kind else lastMention? names blocks name := by
  unfold lastMention?
  rw [List.filter_append]
  by_cases hname : name ∈ names block
  · simp [hname]
  · simp [hname]

/-- The last mention decides. A name that no block mentions stays in or out. -/
theorem mem_foldBlocks {names : InterfaceBlock → List String} {set : Std.ExtTreeSet String}
    {blocks : List InterfaceBlock} {name : String} :
    name ∈ foldBlocks names set blocks ↔
      lastMention? names blocks name = some .require ∨
        lastMention? names blocks name = none ∧ name ∈ set := by
  induction blocks using List.reverseRecOn with
  | nil => simp [foldBlocks, lastMention?]
  | append_singleton blocks block ih =>
    rw [foldBlocks_append_singleton, BlockKind.mem_apply, lastMention?_append_singleton]
    by_cases hname : name ∈ names block
    · simp [hname]
    · simpa only [hname, if_false] using ih

/-- Blocks that only require never take a name away. -/
theorem mem_foldBlocks_of_require {names : InterfaceBlock → List String} {set : Std.ExtTreeSet String}
    {blocks : List InterfaceBlock} {name : String} (h : ∀ block ∈ blocks, block.kind = .require) :
    name ∈ foldBlocks names set blocks ↔ name ∈ set ∨ ∃ block ∈ blocks, name ∈ names block := by
  induction blocks using List.reverseRecOn with
  | nil => simp [foldBlocks]
  | append_singleton blocks block ih =>
    have hblock : block.kind = .require := h block (by simp)
    have ih := ih fun other hother => h other (List.mem_append_left _ hother)
    rw [foldBlocks_append_singleton, BlockKind.mem_apply]
    by_cases hname : name ∈ names block
    · simp [hname, hblock]
    · simp [hname, ih]

/-! ### The versions in closed form -/

namespace Declarations

variable (declarations : Declarations) (selection : Selection)

theorem mem_extensionBlocks {block : InterfaceBlock} :
    block ∈ declarations.extensionBlocks selection ↔
      ∃ extension ∈ declarations.extensions,
        extension.name ∈ selection.extensions ∧ (∃ api ∈ extension.supported, api ∈ selection.apis) ∧
          block ∈ extension.blocks ∧ block.kind = .require ∧ block.Applicable selection := by
  simp [extensionBlocks, Extension.isSelected, Selection.includesExtension, Selection.includesApi,
    InterfaceBlock.applies_iff, and_assoc]

theorem exists_mem_extensionBlocks {names : InterfaceBlock → List String} {name : String} :
    (∃ block ∈ declarations.extensionBlocks selection, name ∈ names block) ↔
      declarations.RequiredByExtension selection names name := by
  simp only [mem_extensionBlocks, RequiredByExtension]
  constructor
  · rintro ⟨block, ⟨extension, hmem, hname, hsupported, hblock, hkind, happlies⟩, hmention⟩
    exact ⟨extension, hmem, hname, hsupported, block, hblock, hkind, happlies, hmention⟩
  · rintro ⟨extension, hmem, hname, hsupported, block, hblock, hkind, happlies, hmention⟩
    exact ⟨block, ⟨extension, hmem, hname, hsupported, hblock, hkind, happlies⟩, hmention⟩

def requiredAt (count : Nat) : Required :=
  (({} : Required).applyAll (declarations.appliedBlocks selection count)).applyAll
    (declarations.extensionBlocks selection)

theorem contains_foldBlocks (names : InterfaceBlock → List String) (count : Nat) (name : String) :
    (foldBlocks names (foldBlocks names ∅ (declarations.appliedBlocks selection count))
        (declarations.extensionBlocks selection)).contains name =
      decide (declarations.Requires selection names count name) := by
  have hrequire : ∀ block ∈ declarations.extensionBlocks selection, block.kind = .require := by
    intro block hblock
    obtain ⟨_, _, _, _, _, hkind, _⟩ := (declarations.mem_extensionBlocks selection).mp hblock
    exact hkind
  rw [Bool.eq_iff_iff, Std.ExtTreeSet.contains_iff_mem, decide_eq_true_iff,
    mem_foldBlocks_of_require hrequire, mem_foldBlocks, exists_mem_extensionBlocks]
  simp [Requires]

theorem contains_enums_requiredAt (count : Nat) (name : String) :
    (declarations.requiredAt selection count).enums.contains name =
      decide (declarations.Requires selection (·.enums) count name) := by
  simp only [requiredAt, Required.applyAll_eq, contains_foldBlocks]

theorem contains_commands_requiredAt (count : Nat) (name : String) :
    (declarations.requiredAt selection count).commands.contains name =
      decide (declarations.Requires selection (·.commands) count name) := by
  simp only [requiredAt, Required.applyAll_eq, contains_foldBlocks]

theorem versionsFrom_eq_mapIdx (required : Required) (features : List Feature) :
    declarations.versionsFrom selection required features =
      features.mapIdx fun position feature =>
        declarations.version feature
          ((required.applyAll ((features.take (position + 1)).flatMap fun feature =>
              feature.blocks.filter (·.applies selection))).applyAll
            (declarations.extensionBlocks selection)) := by
  induction features generalizing required with
  | nil => rfl
  | cons feature features ih =>
    rw [versionsFrom, ih, List.mapIdx_cons]
    simp only [List.take_succ_cons, List.take_zero, List.flatMap_cons, List.flatMap_nil,
      List.append_nil, Required.applyAll_append]

/-- The set that is carried from feature to feature can be had for each version by itself. -/
theorem versions_eq_mapIdx :
    (declarations.registry selection).versions =
      (declarations.selectedFeatures selection).mapIdx fun position feature =>
        declarations.version feature (declarations.requiredAt selection (position + 1)) := by
  have hfeatures : (declarations.features.filter fun feature => selection.includesApi feature.api) =
      declarations.selectedFeatures selection := by
    simp [selectedFeatures, Selection.includesApi]
  have happlies (block : InterfaceBlock) :
      block.applies selection = decide (block.Applicable selection) := by
    rw [Bool.eq_iff_iff, decide_eq_true_iff, InterfaceBlock.applies_iff]
  rw [registry, hfeatures, versionsFrom_eq_mapIdx]
  simp only [happlies, requiredAt, appliedBlocks]

/-- There is one version for each feature of a selected interface, in the order of the document, and a
version offers exactly what the law of the last mention says it requires. -/
theorem versions_registry :
    (declarations.registry selection).versions =
      (declarations.selectedFeatures selection).mapIdx fun position feature =>
        declarations.lawfulVersion selection (position + 1) feature := by
  simp only [versions_eq_mapIdx, version, lawfulVersion, contains_enums_requiredAt,
    contains_commands_requiredAt]

end Declarations

end RegistryBindings.Registry
