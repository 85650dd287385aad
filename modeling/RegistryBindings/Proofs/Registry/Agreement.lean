import Mathlib.Data.List.Forall2
import RegistryBindings.Proofs.Registry.Catalog
import RegistryBindings.Proofs.Registry.Requirement

/-!
# What of the declarations a registry depends on

Much of what a document declares leaves no trace in the registry that is made of it. Declarations that
differ may still give one registry, and `Declarations.Agree` says when they do: the features that give
versions have the same names, of the declared names the same ones are mentioned in the same order, and the
entries that some version requires are the same. `Declarations.Agree.registry_eq` is all that the modules
after this one need of how versions are put together.
-/

namespace RegistryBindings.Registry

/-! ### Mentions of a name -/

def mentions (names : InterfaceBlock → List String) (name : String) (blocks : List InterfaceBlock) :
    List BlockKind :=
  (blocks.filter fun block => name ∈ names block).map (·.kind)

theorem lastMention?_eq_getLast? (names : InterfaceBlock → List String) (blocks : List InterfaceBlock)
    (name : String) : lastMention? names blocks name = (mentions names name blocks).getLast? := by
  rw [mentions, List.getLast?_map, lastMention?]

theorem mentions_append (names : InterfaceBlock → List String) (name : String)
    (blocks more : List InterfaceBlock) :
    mentions names name (blocks ++ more) = mentions names name blocks ++ mentions names name more := by
  simp [mentions]

theorem mentions_flatMap_congr {names : InterfaceBlock → List String} {name : String}
    {blocks : Feature → List InterfaceBlock} {features others : List Feature}
    (h : List.Forall₂ (fun feature other =>
      mentions names name (blocks feature) = mentions names name (blocks other)) features others) :
    mentions names name (features.flatMap blocks) = mentions names name (others.flatMap blocks) := by
  induction h with
  | nil => rfl
  | cons hfeature _ ih =>
    rw [List.flatMap_cons, List.flatMap_cons, mentions_append, mentions_append, hfeature, ih]

namespace Declarations

variable {declarations other : Declarations} {selection : Selection}

/-! ### Agreement on the enumerants, or on the commands -/

/-- Agreement on one kind of names. `names` says which names of a block are of the kind, and `catalog`
where they are declared. -/
structure AgreeOn {α : Type} [CatalogEntry α] (selection : Selection)
    (names : InterfaceBlock → List String) (catalog : Declarations → Catalog α)
    (declarations other : Declarations) : Prop where
  features : ∀ name, ((catalog declarations).find? name).isSome →
    List.Forall₂ (fun feature another =>
        mentions names name (feature.blocks.filter fun block => block.Applicable selection) =
          mentions names name (another.blocks.filter fun block => block.Applicable selection))
      (declarations.selectedFeatures selection) (other.selectedFeatures selection)
  extensions : ∀ name, ((catalog declarations).find? name).isSome →
    (declarations.RequiredByExtension selection names name ↔ other.RequiredByExtension selection names name)
  entries : ∀ count,
    ((catalog declarations).toList.filter fun entry =>
        declarations.Requires selection names count (CatalogEntry.name entry)) =
      (catalog other).toList.filter fun entry =>
        declarations.Requires selection names count (CatalogEntry.name entry)
  declared : ∀ entry ∈ (catalog other).toList,
    ((catalog declarations).find? (CatalogEntry.name entry)).isSome

namespace AgreeOn

variable {α : Type} [CatalogEntry α] {names : InterfaceBlock → List String}
  {catalog : Declarations → Catalog α}

theorem requires_iff (h : AgreeOn selection names catalog declarations other) {name : String}
    (hname : ((catalog declarations).find? name).isSome) (count : Nat) :
    declarations.Requires selection names count name ↔ other.Requires selection names count name := by
  have hmentions : mentions names name (declarations.appliedBlocks selection count) =
      mentions names name (other.appliedBlocks selection count) :=
    mentions_flatMap_congr (List.forall₂_take count (h.features name hname))
  rw [Requires, Requires, lastMention?_eq_getLast?, lastMention?_eq_getLast?, hmentions,
    h.extensions name hname]

theorem filter_eq (h : AgreeOn selection names catalog declarations other) (count : Nat) :
    ((catalog declarations).toList.filter fun entry =>
        declarations.Requires selection names count (CatalogEntry.name entry)) =
      (catalog other).toList.filter fun entry =>
        other.Requires selection names count (CatalogEntry.name entry) := by
  rw [h.entries count]
  refine List.filter_congr fun entry hentry => ?_
  rw [decide_eq_decide]
  exact h.requires_iff (h.declared entry hentry) count

end AgreeOn

/-! ### The memberships -/

/-- The listed names that are known, each with the group it is listed for. -/
def listed (known : String → Bool) (listings : List Listing) : List (String × String) :=
  listings.flatMap fun listing => (listing.members.filter known).map fun member => (listing.group, member)

/-- A membership shows its enumerant's name, so that those of some names can be had from the entries of
those names. -/
theorem filter_memberships {known : String → Bool}
    (hknown : ∀ name, (declarations.enums.find? name).isSome → known name = true) (keep : String → Bool) :
    (declarations.memberships.filter fun membership => keep membership.2.name) =
      ((declarations.enums.toList.filter fun entry => keep entry.enumerant.name).flatMap fun entry =>
          entry.groups.map fun group => (group, entry.enumerant)) ++
        (listed known declarations.listings).filterMap fun member =>
          ((declarations.enums.find? member.2).filter fun entry => keep entry.enumerant.name).map
            fun entry => (member.1, entry.enumerant) := by
  rw [memberships, List.filter_append]
  congr 1
  · rw [List.filter_flatMap]
    induction declarations.enums.toList with
    | nil => rfl
    | cons entry rest ih =>
      rw [List.flatMap_cons, ih, List.filter_map]
      by_cases hkeep : keep entry.enumerant.name = true <;> simp [Function.comp_def, hkeep]
  · rw [listed, List.filter_flatMap, List.filterMap_flatMap]
    refine List.flatMap_congr fun listing _ => ?_
    rw [List.filter_filterMap, List.filterMap_map, List.filterMap_filter]
    refine List.filterMap_congr fun member _ => ?_
    rw [Option.filter_map, Function.comp_apply]
    cases hfind : declarations.enums.find? member with
    | none => simp
    | some entry =>
      rw [if_pos (hknown member (by rw [hfind]; rfl))]
      rfl

/-! ### The whole registry -/

structure Agree (selection : Selection) (declarations other : Declarations) : Prop where
  features : (declarations.selectedFeatures selection).map (fun feature =>
      (feature.api, feature.name, feature.number)) =
    (other.selectedFeatures selection).map fun feature => (feature.api, feature.name, feature.number)
  enums : AgreeOn selection (·.enums) (·.enums) declarations other
  commands : AgreeOn selection (·.commands) (·.commands) declarations other
  listings : listed (declarations.enums.find? · |>.isSome) declarations.listings =
    listed (declarations.enums.find? · |>.isSome) other.listings

namespace Agree

theorem memberships_eq (h : Agree selection declarations other) (count : Nat) :
    (declarations.memberships.filter fun membership =>
        declarations.Requires selection (·.enums) count membership.2.name) =
      other.memberships.filter fun membership =>
        other.Requires selection (·.enums) count membership.2.name := by
  have hentries := h.enums.filter_eq count
  have hknown : ∀ name, (other.enums.find? name).isSome → (declarations.enums.find? name).isSome = true := by
    intro name hname
    obtain ⟨entry, hentry⟩ := Option.isSome_iff_exists.mp hname
    obtain ⟨hmem, rfl⟩ := Catalog.find?_eq_some_iff.mp hentry
    exact h.enums.declared entry hmem
  rw [filter_memberships (fun name hname => hname) fun name =>
      declarations.Requires selection (·.enums) count name,
    filter_memberships hknown fun name => other.Requires selection (·.enums) count name, h.listings]
  congr 1
  · exact congrArg _ hentries
  · refine List.filterMap_congr fun member _ => ?_
    exact congrArg _ (Catalog.filter_find?_congr hentries member.2)

theorem version_eq (h : Agree selection declarations other) {feature another : Feature}
    (hfeature : (feature.api, feature.name, feature.number) = (another.api, another.name, another.number))
    (count : Nat) :
    declarations.version feature (declarations.requiredAt selection count) =
      other.version another (other.requiredAt selection count) := by
  have hcommands := h.commands.filter_eq count
  simp only [Prod.mk.injEq] at hfeature
  obtain ⟨hapi, hname, hnumber⟩ := hfeature
  simp only [version, contains_enums_requiredAt, contains_commands_requiredAt, h.memberships_eq count,
    hapi, hname, hnumber]
  exact congrArg _ hcommands

theorem registry_eq (h : Agree selection declarations other) :
    declarations.registry selection = other.registry selection := by
  have hversions : (declarations.registry selection).versions = (other.registry selection).versions := by
    rw [versions_eq_mapIdx, versions_eq_mapIdx]
    apply List.ext_getElem?
    intro position
    have hposition := congrArg (·[position]?) h.features
    simp only [List.getElem?_map] at hposition
    rw [List.getElem?_mapIdx, List.getElem?_mapIdx]
    cases hfirst : (declarations.selectedFeatures selection)[position]? with
    | none =>
      rw [hfirst, Option.map_none, eq_comm, Option.map_eq_none_iff] at hposition
      rw [hposition, Option.map_none, Option.map_none]
    | some feature =>
      rw [hfirst, Option.map_some, eq_comm, Option.map_eq_some_iff] at hposition
      obtain ⟨another, hsecond, hheader⟩ := hposition
      rw [hsecond, Option.map_some, Option.map_some, h.version_eq hheader.symm]
  exact congrArg Registry.mk hversions

end Agree

end Declarations

end RegistryBindings.Registry
