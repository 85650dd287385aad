import RegistryBindings.Proofs.Registry.Agreement

/-!
# Leaving out declarations that no version depends on

Which declarations are idle shows from the document alone: features and extensions that are not selected,
blocks that do not apply, entries that no applicable block requires, and mentions of names that are not
declared. `Declarations.PrunedTo` says that some of the idle ones are left out on any level, and by
`PrunedTo.agree` the registry is the same without them.
-/

namespace RegistryBindings.Registry

/-! ### Lists with idle entries left out -/

/-- The second list is the first one without some of its idle entries. The others are all there, each as
`Kept` allows. -/
inductive Pruned {α : Type} (Idle : α → Prop) (Kept : α → α → Prop) : List α → List α → Prop
  | nil : Pruned Idle Kept [] []
  | leave {x : α} {xs ys : List α} (hidle : Idle x) (h : Pruned Idle Kept xs ys) :
    Pruned Idle Kept (x :: xs) ys
  | keep {x y : α} {xs ys : List α} (hkept : Kept x y) (h : Pruned Idle Kept xs ys) :
    Pruned Idle Kept (x :: xs) (y :: ys)

namespace Pruned

variable {α β : Type} {Idle : α → Prop} {Kept : α → α → Prop} {Idle' : β → Prop} {Kept' : β → β → Prop}
  {xs ys : List α}

theorem of_forall₂ (h : List.Forall₂ Kept xs ys) : Pruned Idle Kept xs ys := by
  induction h with
  | nil => exact nil
  | cons hkept _ ih => exact keep hkept ih

theorem append {xs' ys' : List α} (h : Pruned Idle Kept xs ys) (h' : Pruned Idle Kept xs' ys') :
    Pruned Idle Kept (xs ++ xs') (ys ++ ys') := by
  induction h with
  | nil => exact h'
  | leave hidle _ ih => exact leave hidle ih
  | keep hkept _ ih => exact keep hkept ih

theorem flatMap {f : α → List β} (hidle : ∀ x, Idle x → Pruned Idle' Kept' (f x) [])
    (hkept : ∀ x y, Kept x y → Pruned Idle' Kept' (f x) (f y)) (h : Pruned Idle Kept xs ys) :
    Pruned Idle' Kept' (xs.flatMap f) (ys.flatMap f) := by
  induction h with
  | nil => exact nil
  | leave hx _ ih => exact (hidle _ hx).append ih
  | keep hxy _ ih => exact (hkept _ _ hxy).append ih

theorem filterMap {f : α → Option β} (hidle : ∀ x, Idle x → ∀ b ∈ f x, Idle' b)
    (hkept : ∀ x y, Kept x y → Option.Rel Kept' (f x) (f y)) (h : Pruned Idle Kept xs ys) :
    Pruned Idle' Kept' (xs.filterMap f) (ys.filterMap f) := by
  rw [List.filterMap_eq_flatMap_toList, List.filterMap_eq_flatMap_toList]
  refine h.flatMap (fun x hx => ?_) fun x y hxy => ?_
  · cases hf : f x with
    | none => exact nil
    | some b => exact leave (hidle x hx b hf) nil
  · have hrel := hkept x y hxy
    generalize f x = first, f y = second at hrel
    cases hrel with
    | none => exact nil
    | some hab => exact keep hab nil

theorem filterMap_eq {f : α → Option β} (hidle : ∀ x, Idle x → ∀ b ∈ f x, Idle' b)
    (h : Pruned Idle Eq xs ys) : Pruned Idle' Eq (xs.filterMap f) (ys.filterMap f) := by
  refine h.filterMap hidle ?_
  rintro x _ rfl
  cases f x with
  | none => exact .none
  | some b => exact .some rfl

theorem forall₂_filter {wanted : α → Bool} (hidle : ∀ x, Idle x → wanted x = false)
    (hkept : ∀ x y, Kept x y → wanted x = wanted y) (h : Pruned Idle Kept xs ys) :
    List.Forall₂ Kept (xs.filter wanted) (ys.filter wanted) := by
  induction h with
  | nil => exact .nil
  | leave hx _ ih =>
    rw [List.filter_cons, if_neg (by rw [hidle _ hx]; exact Bool.false_ne_true)]
    exact ih
  | keep hxy _ ih =>
    rw [List.filter_cons, List.filter_cons, hkept _ _ hxy]
    split
    · exact .cons hxy ih
    · exact ih

theorem filter_eq {wanted : α → Bool} (hidle : ∀ x, Idle x → wanted x = false)
    (h : Pruned Idle Eq xs ys) : xs.filter wanted = ys.filter wanted := by
  rw [← List.forall₂_eq_eq_eq]
  exact h.forall₂_filter hidle fun _ _ hxy => congrArg wanted hxy

theorem mem_iff (h : Pruned Idle Eq xs ys) {x : α} (hx : ¬ Idle x) : x ∈ xs ↔ x ∈ ys := by
  induction h with
  | nil => rfl
  | leave hidle _ ih =>
    rw [List.mem_cons, ih]
    exact or_iff_right fun heq => hx (heq ▸ hidle)
  | keep hkept _ ih => rw [List.mem_cons, List.mem_cons, hkept, ih]

theorem exists_of_mem (h : Pruned Idle Kept xs ys) {y : α} (hy : y ∈ ys) : ∃ x ∈ xs, Kept x y := by
  induction h with
  | nil => cases hy
  | leave _ _ ih =>
    obtain ⟨x, hx, hxy⟩ := ih hy
    exact ⟨x, List.mem_cons_of_mem _ hx, hxy⟩
  | keep hkept _ ih =>
    rcases List.mem_cons.mp hy with rfl | hy
    · exact ⟨_, List.mem_cons_self, hkept⟩
    · obtain ⟨x, hx, hxy⟩ := ih hy
      exact ⟨x, List.mem_cons_of_mem _ hx, hxy⟩

end Pruned

namespace Declarations

variable (declarations : Declarations) (selection : Selection)

/-! ### Which declarations are idle -/

/-- Whether an applicable block requires the name: one of a feature that gives a version, or one of an
extension that is selected. -/
def Named (names : InterfaceBlock → List String) (name : String) : Prop :=
  (∃ feature ∈ declarations.selectedFeatures selection, ∃ block ∈ feature.blocks,
    block.kind = .require ∧ block.Applicable selection ∧ name ∈ names block) ∨
      declarations.RequiredByExtension selection names name

instance (names : InterfaceBlock → List String) (name : String) :
    Decidable (declarations.Named selection names name) :=
  inferInstanceAs (Decidable ((∃ feature ∈ declarations.selectedFeatures selection,
      ∃ block ∈ feature.blocks, block.kind = .require ∧ block.Applicable selection ∧ name ∈ names block) ∨
    ∃ extension ∈ declarations.extensions,
      extension.name ∈ selection.extensions ∧ (∃ api ∈ extension.supported, api ∈ selection.apis) ∧
        ∃ block ∈ extension.blocks,
          block.kind = .require ∧ block.Applicable selection ∧ name ∈ names block))

structure KeptBlock (block other : InterfaceBlock) : Prop where
  kind_eq : block.kind = other.kind
  profile_eq : block.profile? = other.profile?
  api_eq : block.api? = other.api?
  enums : Pruned (fun name => declarations.enums.find? name = none) Eq block.enums other.enums
  commands : Pruned (fun name => declarations.commands.find? name = none) Eq block.commands other.commands

structure KeptFeature (feature other : Feature) : Prop where
  api_eq : feature.api = other.api
  name_eq : feature.name = other.name
  number_eq : feature.number = other.number
  blocks : Pruned (fun block => ¬ block.Applicable selection) declarations.KeptBlock
    feature.blocks other.blocks

structure KeptExtension (extension other : Extension) : Prop where
  name_eq : extension.name = other.name
  supported_eq : extension.supported = other.supported
  blocks : Pruned (fun block => block.kind = .remove ∨ ¬ block.Applicable selection)
    declarations.KeptBlock extension.blocks other.blocks

structure KeptListing (listing other : Listing) : Prop where
  group_eq : listing.group = other.group
  members : Pruned (fun name => declarations.enums.find? name = none) Eq listing.members other.members

/-- The entries of one kind, without some that no applicable block names. -/
def EntriesPruned {α : Type} [CatalogEntry α] (names : InterfaceBlock → List String)
    (catalog other : Catalog α) : Prop :=
  ∃ entries rest, catalog = Catalog.ofList entries ∧ other = Catalog.ofList rest ∧
    Pruned (fun entry => ¬ declarations.Named selection names (CatalogEntry.name entry)) Eq entries rest

/-- Declarations without some of the idle ones. What is idle is said by the first ones. -/
structure PrunedTo (other : Declarations) : Prop where
  enums : declarations.EntriesPruned selection (·.enums) declarations.enums other.enums
  listings : Pruned (fun listing => ∀ member ∈ listing.members, declarations.enums.find? member = none)
    declarations.KeptListing declarations.listings other.listings
  commands : declarations.EntriesPruned selection (·.commands) declarations.commands other.commands
  features : Pruned (fun feature => feature.api ∉ selection.apis) (declarations.KeptFeature selection)
    declarations.features other.features
  extensions : Pruned (fun extension => extension.isSelected selection = false)
    (declarations.KeptExtension selection) declarations.extensions other.extensions

variable {declarations selection}

/-! ### A version requires only what is named -/

theorem named_of_requires {names : InterfaceBlock → List String} {count : Nat} {name : String}
    (h : declarations.Requires selection names count name) : declarations.Named selection names name := by
  refine h.imp_left fun hlast => ?_
  obtain ⟨block, hblock, hkind⟩ := Option.map_eq_some_iff.mp hlast
  obtain ⟨hmem, hname⟩ := List.mem_filter.mp (List.mem_of_getLast? hblock)
  obtain ⟨feature, hfeature, happlied⟩ := List.mem_flatMap.mp hmem
  obtain ⟨hblocks, happlicable⟩ := List.mem_filter.mp happlied
  exact ⟨feature, List.mem_of_mem_take hfeature, block, hblocks, hkind, of_decide_eq_true happlicable,
    of_decide_eq_true hname⟩

/-! ### What is left out is mentioned by no version -/

theorem KeptBlock.applicable_iff {block other : InterfaceBlock} (h : declarations.KeptBlock block other) :
    block.Applicable selection ↔ other.Applicable selection := by
  rw [InterfaceBlock.Applicable, InterfaceBlock.Applicable, h.profile_eq, h.api_eq]

theorem PrunedTo.selectedFeatures {other : Declarations} (h : declarations.PrunedTo selection other) :
    List.Forall₂ (declarations.KeptFeature selection)
      (declarations.selectedFeatures selection) (other.selectedFeatures selection) := by
  refine h.features.forall₂_filter (fun feature hidle => decide_eq_false hidle) ?_
  intro feature another hfeature
  rw [hfeature.api_eq]

section OneKind

/-! For each kind of names the argument is the same. `names` says which names of a block are of the kind,
and `catalog` where they are declared. -/

variable {α : Type} [CatalogEntry α] {names : InterfaceBlock → List String}
  {catalog : Declarations → Catalog α}
  (hnames : ∀ block other, declarations.KeptBlock block other →
    Pruned (fun name => (catalog declarations).find? name = none) Eq (names block) (names other))
  {name : String} (hname : ((catalog declarations).find? name).isSome)

include hnames hname

theorem mentions_eq_of_forall₂ {blocks others : List InterfaceBlock}
    (h : List.Forall₂ declarations.KeptBlock blocks others) :
    mentions names name blocks = mentions names name others := by
  induction h with
  | nil => rfl
  | @cons block other blocks others hblock _ ih =>
    have hmem : name ∈ names block ↔ name ∈ names other :=
      (hnames block other hblock).mem_iff (Option.isSome_iff_ne_none.mp hname)
    have hone : mentions names name [block] = mentions names name [other] := by
      simp [mentions, List.filter_cons, hmem, apply_ite, hblock.kind_eq]
    rw [← List.singleton_append, mentions_append, ih, hone, ← mentions_append, List.singleton_append]

theorem KeptFeature.mentions_eq {feature other : Feature}
    (h : declarations.KeptFeature selection feature other) :
    mentions names name (feature.blocks.filter fun block => block.Applicable selection) =
      mentions names name (other.blocks.filter fun block => block.Applicable selection) := by
  refine mentions_eq_of_forall₂ hnames hname (h.blocks.forall₂_filter ?_ ?_)
  · intro block hidle
    exact decide_eq_false hidle
  · intro block another hblock
    exact decide_eq_decide.mpr hblock.applicable_iff

theorem PrunedTo.requiredByExtension_iff {other : Declarations}
    (h : declarations.PrunedTo selection other) :
    declarations.RequiredByExtension selection names name ↔
      other.RequiredByExtension selection names name := by
  have hsome (blocks : List InterfaceBlock) :
      (∃ block ∈ blocks, name ∈ names block) ↔ mentions names name blocks ≠ [] := by
    simp [mentions, List.filter_eq_nil_iff]
  have hselected : List.Forall₂ (declarations.KeptExtension selection)
      (declarations.extensions.filter (·.isSelected selection))
      (other.extensions.filter (·.isSelected selection)) := by
    refine h.extensions.forall₂_filter (fun extension hidle => hidle) fun extension another hextension => ?_
    rw [Extension.isSelected, Extension.isSelected, hextension.name_eq, hextension.supported_eq]
  have hblocks : List.Forall₂ declarations.KeptBlock (declarations.extensionBlocks selection)
      (other.extensionBlocks selection) := by
    refine List.rel_flatMap hselected fun extension another hextension => ?_
    refine hextension.blocks.forall₂_filter ?_ ?_
    · rintro block (hremove | happlicable)
      · simp [hremove]
      · simp [mt InterfaceBlock.applies_iff.mp happlicable]
    · intro block another hblock
      rw [Bool.eq_iff_iff]
      simp [hblock.kind_eq, InterfaceBlock.applies_iff, hblock.applicable_iff]
  rw [← exists_mem_extensionBlocks, ← exists_mem_extensionBlocks, hsome, hsome,
    mentions_eq_of_forall₂ hnames hname hblocks]

end OneKind

theorem PrunedTo.agreeOn {α : Type} [CatalogEntry α] {names : InterfaceBlock → List String}
    {catalog : Declarations → Catalog α} {other : Declarations} (h : declarations.PrunedTo selection other)
    (hnames : ∀ block other, declarations.KeptBlock block other →
      Pruned (fun name => (catalog declarations).find? name = none) Eq (names block) (names other))
    (hentries : declarations.EntriesPruned selection names (catalog declarations) (catalog other)) :
    AgreeOn selection names catalog declarations other := by
  obtain ⟨entries, rest, hcatalog, hother, hpruned⟩ := hentries
  refine ⟨fun name hname => ?_, fun name hname => ?_, fun count => ?_, fun entry hentry => ?_⟩
  · exact h.selectedFeatures.imp fun feature another hfeature => hfeature.mentions_eq hnames hname
  · exact h.requiredByExtension_iff hnames hname
  · let keep (name : String) : Bool := declarations.Requires selection names count name
    have hfiltered : (entries.filter fun entry => keep (CatalogEntry.name entry)) =
        rest.filter fun entry => keep (CatalogEntry.name entry) :=
      hpruned.filter_eq fun entry hidle =>
        decide_eq_false fun hrequires => hidle (named_of_requires hrequires)
    rw [hcatalog, hother]
    change ((Catalog.ofList entries).toList.filter fun entry => keep (CatalogEntry.name entry)) =
      (Catalog.ofList rest).toList.filter fun entry => keep (CatalogEntry.name entry)
    rw [← Catalog.toList_ofList_filter, ← Catalog.toList_ofList_filter, hfiltered]
  · rw [hother] at hentry
    have hname := Catalog.isSome_find?_ofList.mp (Option.isSome_of_mem (Catalog.find?_name hentry))
    obtain ⟨kept, hkept, hkeptName⟩ := List.mem_map.mp hname
    obtain ⟨original, horiginal, rfl⟩ := hpruned.exists_of_mem hkept
    rw [hcatalog, Catalog.isSome_find?_ofList, ← hkeptName]
    exact List.mem_map_of_mem horiginal

/-- What no version depends on can be left out. -/
theorem PrunedTo.registry_eq {other : Declarations} (h : declarations.PrunedTo selection other) :
    declarations.registry selection = other.registry selection := by
  refine Agree.registry_eq ⟨?_, h.agreeOn (fun _ _ => KeptBlock.enums) h.enums,
    h.agreeOn (fun _ _ => KeptBlock.commands) h.commands, ?_⟩
  · have hheaders := h.selectedFeatures
    generalize declarations.selectedFeatures selection = features,
      other.selectedFeatures selection = others at hheaders
    induction hheaders with
    | nil => rfl
    | cons hfeature _ ih =>
      rw [List.map_cons, List.map_cons, hfeature.api_eq, hfeature.name_eq, hfeature.number_eq, ih]
  · have hlistings := h.listings
    generalize declarations.listings = listings, other.listings = others at hlistings
    induction hlistings with
    | nil => rfl
    | @leave listing listings others hidle _ ih =>
      have hnone : listing.members.filter (fun name => (declarations.enums.find? name).isSome) = [] := by
        rw [List.filter_eq_nil_iff]
        intro member hmember
        simp [hidle member hmember]
      rw [listed, List.flatMap_cons, hnone, List.map_nil, List.nil_append, ← listed, ih]
    | keep hlisting _ ih =>
      rw [listed, listed, List.flatMap_cons, List.flatMap_cons, ← listed, ← listed, ih, hlisting.group_eq,
        hlisting.members.filter_eq fun name hidle => by rw [hidle]; rfl]

end Declarations

end RegistryBindings.Registry
