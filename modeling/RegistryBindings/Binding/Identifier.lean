import RegistryBindings.Text.Uppercase

/-!
# Identifiers

How the names of a registry become identifiers of a target: commands lose the mark of their interface,
members that begin with a digit get an underscore, and parameters that are reserved words get the mark
that makes them identifiers again.
-/

namespace RegistryBindings.Binding

open Text

/-- Snake case: an underscore before each uppercase letter but the first character. Only ASCII letters
are made small. -/
def toSnakeCase (name : String) : String :=
  match name.toList with
  | [] => ""
  | c :: rest =>
    String.ofList (c.toLower ::
      rest.flatMap fun c => if isUppercase c then ['_', c.toLower] else [c.toLower])

/-- A command's name without the small letters that name its interface. A name of nothing else stays. -/
def withoutApi (name : String) : String :=
  match name.toList.dropWhile Char.isLower with
  | [] => name
  | c :: rest => String.ofList (c :: rest)

def memberIdentifier (shortName : String) : String :=
  match shortName.toList with
  | c :: _ => if c.isDigit then "_" ++ shortName else shortName
  | [] => shortName

/-- The reserved words of a target, and the mark that turns one into an identifier. -/
structure ReservedWords where
  words : List String
  mark : String
deriving DecidableEq, Repr

namespace ReservedWords

def contains (reserved : ReservedWords) (name : String) : Bool :=
  reserved.words.contains name

def escape (reserved : ReservedWords) (name : String) : String :=
  if reserved.contains name then reserved.mark ++ name else name

end ReservedWords

end RegistryBindings.Binding
