import RegistryBindings.Proofs.Registry.Agreement

/-!
# Declarations with nothing in them

A block that mentions no name adds nothing to a feature or an extension, nor does a listing without members
to a group, nor an extension without blocks to anything. `Declarations.trimmed` leaves them out, with the
features that are not selected, and the registry stays what it was. Two documents whose declarations are
the same when trimmed therefore give the same registry.
-/

namespace RegistryBindings.Registry

def trimmedBlocks (blocks : List InterfaceBlock) : List InterfaceBlock :=
  blocks.filter fun block => block.enums ≠ [] ∨ block.commands ≠ []

theorem mentions_trimmedBlocks {names : InterfaceBlock → List String}
    (hnames : ∀ block name, name ∈ names block → block.enums ≠ [] ∨ block.commands ≠ [])
    (wanted : InterfaceBlock → Bool) (blocks : List InterfaceBlock) (name : String) :
    mentions names name ((trimmedBlocks blocks).filter wanted) =
      mentions names name (blocks.filter wanted) := by
  rw [mentions, mentions, trimmedBlocks, List.filter_filter, List.filter_filter, List.filter_filter]
  congr 1
  refine List.filter_congr fun block _ => ?_
  by_cases hname : name ∈ names block
  · simp [hname, hnames block name hname]
  · simp [hname]

def Feature.trimmed (feature : Feature) : Feature :=
  { feature with blocks := trimmedBlocks feature.blocks }

def Extension.trimmed (extension : Extension) : Extension :=
  { extension with blocks := trimmedBlocks extension.blocks }

namespace Declarations

def trimmed (selection : Selection) (declarations : Declarations) : Declarations :=
  { declarations with
    listings := declarations.listings.filter fun listing => listing.members ≠ []
    features := (declarations.features.filter fun feature => feature.api ∈ selection.apis).map
      Feature.trimmed
    extensions := (declarations.extensions.map Extension.trimmed).filter fun extension =>
      extension.blocks ≠ [] }

variable {selection : Selection} {declarations : Declarations}

theorem selectedFeatures_trimmed :
    (declarations.trimmed selection).selectedFeatures selection =
      (declarations.selectedFeatures selection).map Feature.trimmed := by
  have hapi : (fun feature : Feature => decide (feature.api ∈ selection.apis)) ∘ Feature.trimmed =
      fun feature => decide (feature.api ∈ selection.apis) := rfl
  rw [selectedFeatures, trimmed, List.filter_map, hapi, List.filter_filter, selectedFeatures]
  simp only [Bool.and_self]

theorem requiredByExtension_trimmed {names : InterfaceBlock → List String}
    (hnames : ∀ block name, name ∈ names block → block.enums ≠ [] ∨ block.commands ≠ []) {name : String} :
    (declarations.trimmed selection).RequiredByExtension selection names name ↔
      declarations.RequiredByExtension selection names name := by
  constructor
  · rintro ⟨_, hmem, hname, hsupported, block, hblock, hrest⟩
    obtain ⟨extension, hextension, rfl⟩ := List.mem_map.mp (List.mem_filter.mp hmem).1
    exact ⟨extension, hextension, hname, hsupported, block, (List.mem_filter.mp hblock).1, hrest⟩
  · rintro ⟨extension, hmem, hname, hsupported, block, hblock, hkind, happlicable, hmention⟩
    have hkept : block ∈ trimmedBlocks extension.blocks :=
      List.mem_filter.mpr ⟨hblock, decide_eq_true (hnames block name hmention)⟩
    have hextension : extension.trimmed ∈ (declarations.trimmed selection).extensions := by
      refine List.mem_filter.mpr ⟨List.mem_map_of_mem hmem, decide_eq_true ?_⟩
      exact List.ne_nil_of_mem hkept
    exact ⟨_, hextension, hname, hsupported, block, hkept, hkind, happlicable, hmention⟩

theorem agreeOn_trimmed {α : Type} [CatalogEntry α] {names : InterfaceBlock → List String}
    {catalog : Declarations → Catalog α}
    (hnames : ∀ block name, name ∈ names block → block.enums ≠ [] ∨ block.commands ≠ [])
    (hcatalog : catalog (declarations.trimmed selection) = catalog declarations) :
    AgreeOn selection names catalog declarations (declarations.trimmed selection) where
  features name _ := by
    rw [selectedFeatures_trimmed, List.forall₂_map_right_iff, List.forall₂_same]
    exact fun feature _ => (mentions_trimmedBlocks hnames _ feature.blocks name).symm
  extensions name _ := (requiredByExtension_trimmed hnames).symm
  entries count := by rw [hcatalog]
  declared entry hentry := by
    rw [hcatalog] at hentry
    exact Option.isSome_of_mem (Catalog.find?_name hentry)

theorem listed_trimmed (known : String → Bool) :
    listed known (declarations.trimmed selection).listings = listed known declarations.listings := by
  unfold listed trimmed
  induction declarations.listings with
  | nil => rfl
  | cons listing listings ih =>
    rw [List.flatMap_cons, ← ih]
    by_cases hmembers : listing.members = [] <;> simp [hmembers]

theorem registry_trimmed (selection : Selection) (declarations : Declarations) :
    (declarations.trimmed selection).registry selection = declarations.registry selection := by
  refine (Agree.registry_eq ⟨?_, agreeOn_trimmed ?_ rfl, agreeOn_trimmed ?_ rfl, ?_⟩).symm
  · rw [selectedFeatures_trimmed, List.map_map]
    rfl
  · exact fun block name hname => .inl (List.ne_nil_of_mem hname)
  · exact fun block name hname => .inr (List.ne_nil_of_mem hname)
  · exact (listed_trimmed _).symm

end Declarations

end RegistryBindings.Registry
