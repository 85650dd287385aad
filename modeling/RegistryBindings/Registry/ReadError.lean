import RegistryBindings.Markup.Fault

/-!
# Errors in a registry document

Why a text is not a registry: it is not markup, an attribute or element is missing, or it has no registry
element at all.
-/

namespace RegistryBindings.Registry

inductive ReadError where
  | markup (fault : Markup.Fault)
  | missingAttribute (element name : String)
  | missingElement (element child : String)
  | noRegistryElement
deriving DecidableEq, Repr

namespace ReadError

def message : ReadError → String
  | markup fault => "XML parsing error: " ++ fault.message
  | missingAttribute element name =>
    "missing required attribute '" ++ name ++ "' on element '" ++ element ++ "'"
  | missingElement element child =>
    "missing required element '" ++ child ++ "' inside '" ++ element ++ "'"
  | noRegistryElement => "invalid registry structure: no registry element found"

end ReadError

end RegistryBindings.Registry
