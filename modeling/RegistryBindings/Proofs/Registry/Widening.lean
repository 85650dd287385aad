import Mathlib.Data.List.Forall2
import RegistryBindings.Proofs.Markup.Writing
import RegistryBindings.Proofs.Registry.Membership
import RegistryBindings.Registry.Reading

/-!
# Asking for more extensions

What a document declares does not depend on the extensions that a selection asks for, and of its interfaces
only on which they are. So a selection that asks for more is refused by the same documents, and where a
document is read each version has all that it had: the names that it requires become more, and everything
that a version shows is a fixed list filtered by those names.
-/

namespace RegistryBindings.Registry

open Markup

/-- The other selection has the same interfaces and profile, and asks for these extensions and perhaps for
more. How often a name is given, and in what place, does not matter. -/
structure Selection.WidensTo (selection wider : Selection) : Prop where
  apis : ∀ api, api ∈ selection.apis ↔ api ∈ wider.apis
  profile : selection.profile? = wider.profile?
  extensions : ∀ name ∈ selection.extensions, name ∈ wider.extensions

/-- The other version has the same name and number, and everything that the version has, as it is and in the
same order. -/
structure Version.Within (version larger : Version) : Prop where
  api : version.api = larger.api
  name : version.name = larger.name
  number : version.number = larger.number
  commands : version.commands.Sublist larger.commands
  groups : ∀ name group, version.group? name = some group →
    ∃ other, larger.group? name = some other ∧ group.members.Sublist other.members

/-- Both readings stop at the same error, or both give versions and each has its own place within the other
one. -/
inductive ReadWithin : Except ReadError Registry → Except ReadError Registry → Prop
  | refused (error : ReadError) : ReadWithin (.error error) (.error error)
  | read {registry larger : Registry}
    (versions : List.Forall₂ Version.Within registry.versions larger.versions) :
    ReadWithin (.ok registry) (.ok larger)

variable {selection wider : Selection}

/-! ### The declarations are the same -/

theorem Selection.WidensTo.includesApi_eq (h : selection.WidensTo wider) :
    selection.includesApi = wider.includesApi := by
  funext api
  rw [Bool.eq_iff_iff, includesApi, includesApi, List.contains_iff_mem, List.contains_iff_mem]
  exact h.apis api

theorem readSection?_congr (h : selection.includesApi = wider.includesApi) :
    readSection? selection = readSection? wider := by
  have hread : readEnum selection = readEnum wider := by
    funext block tag
    rw [readEnum, readEnum, Selection.admitsApi, Selection.admitsApi, h]
  have hvisitor : enumVisitor selection = enumVisitor wider := by
    funext block
    rw [enumVisitor, enumVisitor, hread]
  funext declarations tag content
  rw [readSection?, readSection?, hvisitor]

theorem readDeclarations_congr (h : selection.includesApi = wider.includesApi) (content : Content) :
    readDeclarations selection content = readDeclarations wider content := by
  have houtside (declarations? : Option Declarations) :
      readOutside selection declarations? content = readOutside wider declarations? content := by
    induction content generalizing declarations? with
    | done => rfl
    | failed fault => rfl
    | text characters next ih => exact ih declarations?
    | void tag next ih => exact ih declarations?
    | element tag body next ihbody ihnext =>
      simp only [readOutside, readSection?_congr h, ihbody, ihnext]
  rw [readDeclarations, houtside, readDeclarations]

/-! ### The versions require more -/

theorem Selection.WidensTo.applicable_iff (h : selection.WidensTo wider) (block : InterfaceBlock) :
    block.Applicable selection ↔ block.Applicable wider := by
  simp only [InterfaceBlock.Applicable, h.profile, h.apis]

namespace Declarations

variable {declarations : Declarations}

theorem selectedFeatures_widened (h : selection.WidensTo wider) :
    declarations.selectedFeatures selection = declarations.selectedFeatures wider := by
  simp only [selectedFeatures, h.apis]

theorem appliedBlocks_widened (h : selection.WidensTo wider) (count : Nat) :
    declarations.appliedBlocks selection count = declarations.appliedBlocks wider count := by
  simp only [appliedBlocks, selectedFeatures_widened h, h.applicable_iff]

theorem Requires.widened (h : selection.WidensTo wider) {names : InterfaceBlock → List String}
    {count : Nat} {name : String} (hrequires : declarations.Requires selection names count name) :
    declarations.Requires wider names count name := by
  rcases hrequires with hmention | ⟨extension, hmem, hname, ⟨api, hapi, hselected⟩, block, hblock, hkind,
    happlicable, hnamed⟩
  · rw [appliedBlocks_widened h] at hmention
    exact .inl hmention
  · exact .inr ⟨extension, hmem, h.extensions _ hname, ⟨api, hapi, (h.apis api).mp hselected⟩, block, hblock,
      hkind, (h.applicable_iff block).mp happlicable, hnamed⟩

/-- What is required of a list is a part of it, and more of it if more is required. -/
theorem filter_requires_sublist {α : Type} (h : selection.WidensTo wider)
    (names : InterfaceBlock → List String) (count : Nat) (name : α → String) (entries : List α) :
    (entries.filter fun entry => declarations.Requires selection names count (name entry)).Sublist
      (entries.filter fun entry => declarations.Requires wider names count (name entry)) := by
  refine List.monotone_filter_right entries fun entry hentry => ?_
  exact decide_eq_true ((of_decide_eq_true hentry).widened h)

theorem version_within (h : selection.WidensTo wider) (feature : Feature) (count : Nat) :
    (declarations.version feature (declarations.requiredAt selection count)).Within
      (declarations.version feature (declarations.requiredAt wider count)) where
  api := rfl
  name := rfl
  number := rfl
  commands := by
    simp only [version, contains_commands_requiredAt]
    exact filter_requires_sublist h (·.commands) count (·.name) declarations.commands.toList
  groups name group hgroup := by
    have hmembers : (declarations.shownMembers selection count name).Sublist
        (declarations.shownMembers wider count name) :=
      filter_requires_sublist h (·.enums) count Enumerant.name (declarations.masterList name)
    rw [group?_version] at hgroup ⊢
    by_cases hnil : declarations.shownMembers selection count name = []
    · rw [if_pos hnil] at hgroup
      cases hgroup
    · have hne : declarations.shownMembers wider count name ≠ [] := fun hwider =>
        hnil (List.sublist_nil.mp (hwider ▸ hmembers))
      rw [if_neg hnil, Option.some.injEq] at hgroup
      subst hgroup
      exact ⟨⟨name, declarations.shownMembers wider count name⟩, if_neg hne, hmembers⟩

theorem versions_within (h : selection.WidensTo wider) :
    List.Forall₂ Version.Within (declarations.registry selection).versions
      (declarations.registry wider).versions := by
  rw [versions_eq_mapIdx, versions_eq_mapIdx, selectedFeatures_widened h, List.mapIdx_eq_zipIdx_map,
    List.mapIdx_eq_zipIdx_map, List.forall₂_map_left_iff, List.forall₂_map_right_iff, List.forall₂_same]
  exact fun feature _ => version_within h feature.1 (feature.2 + 1)

/-- Selections that ask for the same give the same registry. -/
theorem registry_congr (h : selection.WidensTo wider) (hback : wider.WidensTo selection) :
    declarations.registry selection = declarations.registry wider := by
  have hrequires (names : InterfaceBlock → List String) (count : Nat) (name : String) :
      declarations.Requires selection names count name ↔ declarations.Requires wider names count name :=
    ⟨fun hrequires => hrequires.widened h, fun hrequires => hrequires.widened hback⟩
  have hversions : (declarations.registry selection).versions = (declarations.registry wider).versions := by
    simp only [versions_eq_mapIdx, selectedFeatures_widened h, version, contains_enums_requiredAt,
      contains_commands_requiredAt, hrequires]
  exact congrArg Registry.mk hversions

end Declarations

/-- Asking for more extensions changes neither whether a document is read nor what a version had. Asking for
the same interfaces and extensions in another order, or for some of them twice, changes nothing. -/
theorem read_within_read (h : selection.WidensTo wider) (text : String) :
    ReadWithin (read text selection) (read text wider) ∧
      (wider.WidensTo selection → read text selection = read text wider) := by
  rw [read, read, readDeclarations_congr h.includesApi_eq]
  cases readDeclarations wider (Content.ofText text) with
  | error error => exact ⟨.refused error, fun _ => rfl⟩
  | ok declarations =>
    refine ⟨.read (declarations.versions_within h), fun hback => ?_⟩
    exact congrArg Except.ok (declarations.registry_congr h hback)

/-- A command and an enumerant that the second version removes. An extension requires both, and one more enumerant of
the group. -/
def withdrawnNames : Content :=
  let enum (name : String) := Content.void ⟨"enum", [⟨"name", name⟩]⟩
  let command := Content.void ⟨"command", [⟨"name", "glBegin"⟩]⟩ .done
  .element ⟨"registry", []⟩
    (.element ⟨"enums", [⟨"group", "Mode"⟩]⟩
      (.void ⟨"enum", [⟨"name", "GL_ONE"⟩, ⟨"value", "1"⟩]⟩
        (.void ⟨"enum", [⟨"name", "GL_TWO"⟩, ⟨"value", "2"⟩]⟩ .done))
      (.element ⟨"commands", []⟩
        (.element ⟨"command", []⟩
          (.element ⟨"proto", []⟩
            (.text "void ".toList (.element ⟨"name", []⟩ (.text "glBegin".toList .done) .done)) .done) .done)
        (.element ⟨"feature", [⟨"api", "gl"⟩, ⟨"name", "GL_VERSION_1_0"⟩]⟩
          (.element ⟨"require", []⟩ (enum "GL_TWO" command) .done)
          (.element ⟨"feature", [⟨"api", "gl"⟩, ⟨"name", "GL_VERSION_1_1"⟩]⟩
            (.element ⟨"remove", []⟩ (enum "GL_TWO" command) .done)
            (.element ⟨"extension", [⟨"name", "GL_EXT"⟩, ⟨"supported", "gl"⟩]⟩
              (.element ⟨"require", []⟩ (enum "GL_TWO" (enum "GL_ONE" command)) .done) .done))))) .done

def shownNames (registry : Registry) : List (List String × List (String × List String)) :=
  registry.versions.map fun version =>
    (version.commands.map (·.name),
      version.groupList.map fun group => (group.name, group.members.map (·.shortName)))

/-- The extension brings back what was removed, and asking for it twice is the same. -/
theorem read_within_read_withdrawn :
    ReadWithin (read (String.ofList withdrawnNames.write) {})
        (read (String.ofList withdrawnNames.write) { extensions := ["GL_EXT"] }) ∧
      read (String.ofList withdrawnNames.write) { extensions := ["GL_EXT"] } =
        read (String.ofList withdrawnNames.write) { apis := ["gl", "gl"], extensions := ["GL_EXT", "GL_EXT"] } ∧
      (read (String.ofList withdrawnNames.write) {}).toOption.map shownNames =
        some [(["glBegin"], [("Mode", ["TWO"])]), ([], [])] ∧
      (read (String.ofList withdrawnNames.write) { extensions := ["GL_EXT"] }).toOption.map shownNames =
        some [(["glBegin"], [("Mode", ["ONE", "TWO"])]), (["glBegin"], [("Mode", ["ONE", "TWO"])])] := by
  have htext : Content.ofText (String.ofList withdrawnNames.write) = withdrawnNames :=
    ofText_write_content (by decide +kernel) rfl
  have hwider : Selection.WidensTo {} { extensions := ["GL_EXT"] } := ⟨by simp, rfl, by simp⟩
  have htwice : Selection.WidensTo { extensions := ["GL_EXT"] }
      { apis := ["gl", "gl"], extensions := ["GL_EXT", "GL_EXT"] } := ⟨by simp, rfl, by simp⟩
  refine ⟨(read_within_read hwider _).1, (read_within_read htwice _).2 ⟨by simp, rfl, by simp⟩, ?_, ?_⟩
  · rw [read, htext]
    decide +kernel
  · rw [read, htext]
    decide +kernel

end RegistryBindings.Registry
