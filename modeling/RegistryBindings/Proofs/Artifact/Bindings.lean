import RegistryBindings.Artifact.Bindings

/-!
# The bindings of a document

A document that gives bindings was read, and the bindings are those of the version that was selected from what it
declares.
-/

namespace RegistryBindings.Artifact

open Markup Registry

variable {text : String} {selection : Selection} {config : Config} {bindings : Bindings} {version : Registry.Version}

/-- What was read and selected on the way to the bindings of a document. -/
theorem exists_version_of_ofDocument (h : Bindings.ofDocument text selection config = .ok bindings) :
    ∃ declarations version, readDeclarations selection (Content.ofText text) = .ok declarations ∧
      config.version.select? (declarations.registry selection) = some version ∧
      bindings = Bindings.ofVersion version config := by
  rw [Bindings.ofDocument, Registry.read] at h
  cases hread : readDeclarations selection (Content.ofText text) with
  | error error =>
    rw [hread] at h
    cases h
  | ok declarations =>
    rw [hread] at h
    have hregistry : (Bindings.ofRegistry (declarations.registry selection) config).mapError
        DocumentError.generation = .ok bindings := h
    rw [Bindings.ofRegistry] at hregistry
    cases hvalid : config.validate with
    | error error =>
      rw [hvalid] at hregistry
      cases hregistry
    | ok valid =>
      cases hselect : config.version.select? (declarations.registry selection) with
      | none =>
        rw [hvalid, hselect] at hregistry
        cases hregistry
      | some version =>
        rw [hvalid, hselect] at hregistry
        cases hregistry
        exact ⟨declarations, version, rfl, hselect, rfl⟩

theorem mem_versions_of_select? {selector : VersionSelector} {registry : Registry}
    (h : selector.select? registry = some version) : version ∈ registry.versions := by
  cases selector with
  | latest => exact List.mem_of_getLast? h
  | exact key => exact List.mem_of_find?_eq_some h

end RegistryBindings.Artifact
