import RegistryBindings.Proofs.Registry.Collecting
import RegistryBindings.Proofs.Registry.Document

/-!
# The order of sections

Sections of different kinds do not see each other: each kind is collected by itself, in the order of the
document, and names are only looked up when everything is collected. So of the order of sections nothing
counts but the order within each kind, and a feature, an extension or a listing may stand before the
declarations that it names.
-/

namespace RegistryBindings.Registry

open Markup

/-- The same sections of each kind in the same order. How the kinds are interleaved is left open. -/
def SameByKind (parts others : List Part) : Prop :=
  ∀ kind ∈ ["enums", "groups", "commands", "feature", "extension"],
    parts.filter (·.1.name = kind) = others.filter (·.1.name = kind)

instance (parts others : List Part) : Decidable (SameByKind parts others) :=
  inferInstanceAs (Decidable (∀ kind ∈ _, _))

theorem flatMap_ofKind {α : Type} (kind : String) (declared : Part → List α) (parts : List Part) :
    parts.flatMap (Part.ofKind kind declared) = (parts.filter (·.1.name = kind)).flatMap declared := by
  induction parts with
  | nil => rfl
  | cons part parts ih =>
    rw [List.flatMap_cons, ih, Part.ofKind]
    by_cases hname : part.1.name = kind <;> simp [hname]

/-- The kinds are collected apart from each other. -/
theorem declarationsOf_eq_of_sameByKind {parts others : List Part} (h : SameByKind parts others)
    (selection : Selection) : declarationsOf selection parts = declarationsOf selection others := by
  have hkind {α : Type} (declared : Part → List α) {kind : String}
      (hmem : kind ∈ ["enums", "groups", "commands", "feature", "extension"]) :
      parts.flatMap (Part.ofKind kind declared) = others.flatMap (Part.ofKind kind declared) := by
    rw [flatMap_ofKind, flatMap_ofKind, h kind hmem]
  rw [declarationsOf, declarationsOf, Declarations.extend, Declarations.extend, Part.enums, Part.listings,
    Part.commands, Part.features, Part.extensions, hkind _ (by simp), hkind _ (by simp),
    hkind _ (by simp), hkind _ (by simp), hkind _ (by simp)]

theorem isSection_of_mem_sections {entered : Bool} {content : Content} {part : Part}
    (h : part ∈ sections entered content) : IsSection part.1 := by
  induction content generalizing entered with
  | done => cases h
  | failed fault => cases h
  | text characters next ih => exact ih h
  | void tag next ih => exact ih h
  | element tag body next ihbody ihnext =>
    rw [sections] at h
    split at h
    · next hsection =>
      rcases List.mem_cons.mp h with rfl | hnext
      · exact hsection.2
      · exact ihnext hnext
    · rcases List.mem_append.mp h with hbody | hnext
      · exact ihbody hbody
      · exact ihnext hnext

theorem SameByKind.mem_of_mem {parts others : List Part} (h : SameByKind parts others) {part : Part}
    (hsection : IsSection part.1) (hmem : part ∈ others) : part ∈ parts := by
  have hfiltered : part ∈ parts.filter (·.1.name = part.1.name) := by
    rw [h _ hsection]
    exact List.mem_filter.mpr ⟨hmem, decide_eq_true rfl⟩
  exact (List.mem_filter.mp hfiltered).1

/-- Documents that have the same sections of each kind in the same order, and interleave the kinds as they
like, are accepted together and give the same registry. -/
theorem read_of_sameByKind {text other : String} {selection : Selection} {registry : Registry}
    (hmarkup : (Events.ofText other).fault? = none) (hroot : (Content.ofText other).Opens "registry")
    (hsame : SameByKind (sections false (Content.ofText text)) (sections false (Content.ofText other)))
    (h : read text selection = .ok registry) : read other selection = .ok registry := by
  obtain ⟨declarations, hdeclarations, hdone⟩ := exists_ok_of_bind h
  obtain ⟨-, -, hwellFormed, rfl⟩ := readDeclarations_eq_ok_iff.mp hdeclarations
  have hother : readDeclarations selection (Content.ofText other) =
      .ok (declarationsOf selection (sections false (Content.ofText text))) := by
    refine readDeclarations_eq_ok_iff.mpr
      ⟨Content.fault?_ofText hmarkup, hroot, fun part hpart => ?_, ?_⟩
    · exact hwellFormed part (hsame.mem_of_mem (isSection_of_mem_sections hpart) hpart)
    · exact declarationsOf_eq_of_sameByKind hsame selection
  rw [read, hother]
  exact hdone

def declaredFirst : List Part := [
  (⟨"enums", [⟨"namespace", "GL"⟩]⟩, Document.voids [
    ⟨"enum", [⟨"name", "GL_LOW"⟩, ⟨"value", "1"⟩]⟩,
    ⟨"enum", [⟨"name", "GL_HIGH"⟩, ⟨"value", "2"⟩]⟩]),
  (⟨"commands", []⟩, Document.elements [
    (⟨"command", []⟩, Document.elements [
      (⟨"proto", []⟩,
        .text "void ".toList (.element ⟨"name", []⟩ (.text "glDraw".toList .done) .done))])]),
  (⟨"groups", []⟩, Document.elements [
    (⟨"group", [⟨"name", "Mask"⟩]⟩, Document.voids [
      ⟨"enum", [⟨"name", "GL_HIGH"⟩]⟩,
      ⟨"enum", [⟨"name", "GL_LOW"⟩]⟩])]),
  (⟨"feature", [⟨"api", "gl"⟩, ⟨"name", "GL_VERSION_1_0"⟩]⟩, Document.elements [
    (⟨"require", []⟩, Document.voids [⟨"enum", [⟨"name", "GL_LOW"⟩]⟩])]),
  (⟨"extension", [⟨"name", "GL_EXT"⟩, ⟨"supported", "gl"⟩]⟩, Document.elements [
    (⟨"require", []⟩, Document.voids [
      ⟨"enum", [⟨"name", "GL_HIGH"⟩]⟩,
      ⟨"command", [⟨"name", "glDraw"⟩]⟩])])]

/-- In reverse, every name is used before it is declared. -/
theorem read_declaredFirst_reverse :
    ∃ registry,
      read (String.ofList (Document.registryElement declaredFirst).write)
        { extensions := ["GL_EXT"] } = .ok registry ∧
      read (String.ofList (Document.registryElement declaredFirst.reverse).write)
        { extensions := ["GL_EXT"] } = .ok registry ∧
      registry.versions.map (fun version => (version.group? "Mask", version.commands)) =
        [(some ⟨"Mask", [⟨"GL_HIGH", "HIGH", "2"⟩, ⟨"GL_LOW", "LOW", "1"⟩]⟩,
          [⟨"glDraw", ⟨"void", none⟩, []⟩])] := by
  let selection : Selection := { extensions := ["GL_EXT"] }
  let content := Document.registryElement declaredFirst
  let reverse := Document.registryElement declaredFirst.reverse
  have hplain : reverse.Plain := by decide +kernel
  have hcontent : Content.ofText (String.ofList content.write) = content :=
    ofText_write_content (by decide +kernel) rfl
  have hreverse : Content.ofText (String.ofList reverse.write) = reverse := ofText_write_content hplain rfl
  obtain ⟨declarations, hread⟩ : ∃ declarations, readDeclarations selection content = .ok declarations :=
    ⟨_, rfl⟩
  have hregistry : read (String.ofList content.write) selection = .ok (declarations.registry selection) := by
    rw [read, hcontent, hread]
    rfl
  refine ⟨_, hregistry, read_of_sameByKind ?_ ?_ ?_ hregistry, ?_⟩
  · rw [ofText_write_events hplain rfl, Content.fault?_events hplain]
    rfl
  · rw [hreverse]
    decide
  · rw [hcontent, hreverse]
    decide +kernel
  · have hversions : ((readDeclarations selection content).toOption.map fun declarations =>
        (declarations.registry selection).versions.map fun version =>
          (version.group? "Mask", version.commands)) =
        some [(some ⟨"Mask", [⟨"GL_HIGH", "HIGH", "2"⟩, ⟨"GL_LOW", "LOW", "1"⟩]⟩,
          [⟨"glDraw", ⟨"void", none⟩, []⟩])] := by decide +kernel
    rw [hread] at hversions
    exact Option.some.inj hversions

end RegistryBindings.Registry
