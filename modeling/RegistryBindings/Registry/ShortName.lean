import RegistryBindings.Text.Search

/-!
# Short names

The names of enumerants begin with a namespace and an underscore, and the bindings leave it out. A block
may say what the namespace is; otherwise it ends at the first underscore. A short name is never empty
unless the name is.
-/

namespace RegistryBindings.Registry

open Text

/-- What follows `mark` and an underscore in a name, if anything does. -/
def afterNamespace? (mark : String) (name : List Char) : Option (List Char) :=
  match strip? (mark.toList ++ ['_']) name with
  | some (c :: rest) => some (c :: rest)
  | _ => none

/-- An enumerant's name without the namespace it begins with, or else without all up to its first
underscore. Where nothing would be left the name stays whole. -/
def shortName (namespace? : Option String) (name : String) : String :=
  match namespace?.bind fun mark => afterNamespace? mark name.toList with
  | some rest => String.ofList rest
  | none =>
    match name.toList.dropWhile (· ≠ '_') with
    | _ :: c :: rest => String.ofList (c :: rest)
    | _ => name

end RegistryBindings.Registry
