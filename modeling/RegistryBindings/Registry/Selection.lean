/-!
# Selection

Which part of a registry a reader asks for: the interfaces to keep, the profile whose blocks apply, and
the extensions whose requirements are added to every version.
-/

namespace RegistryBindings.Registry

structure Selection where
  apis : List String := ["gl"]
  profile? : Option String := none
  extensions : List String := []
deriving DecidableEq, Repr

namespace Selection

def includesApi (selection : Selection) (api : String) : Bool :=
  selection.apis.contains api

def includesExtension (selection : Selection) (name : String) : Bool :=
  selection.extensions.contains name

/-- Whether a part that is limited to an interface, or to none, is selected. -/
def admitsApi (selection : Selection) (api? : Option String) : Bool :=
  api?.all selection.includesApi

theorem admitsApi_iff {selection : Selection} {api? : Option String} :
    selection.admitsApi api? = true ↔ ∀ api ∈ api?, api ∈ selection.apis := by
  simp [admitsApi, includesApi, Option.all_eq_true]

def admitsProfile (selection : Selection) (profile? : Option String) : Bool :=
  profile?.all (selection.profile? = some ·)

theorem admitsProfile_iff {selection : Selection} {profile? : Option String} :
    selection.admitsProfile profile? = true ↔
      ∀ profile ∈ profile?, selection.profile? = some profile := by
  simp [admitsProfile, Option.all_eq_true]

end Selection

end RegistryBindings.Registry
