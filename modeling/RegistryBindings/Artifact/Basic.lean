/-!
# Lines and names of source text

Artifacts are put together as lists of lines, each of which ends with a newline when it is written. Two
names are shared by the artifacts of one generation.
-/

namespace RegistryBindings.Artifact

/-- The text of the lines, each ended by a newline. -/
def unlines (lines : List String) : String :=
  String.join (lines.map (· ++ "\n"))

theorem unlines_append (first second : List String) :
    unlines (first ++ second) = unlines first ++ unlines second := by
  simp [unlines]

def commaSeparated (items : List String) : String :=
  ", ".intercalate items

structure SharedNames where
  /-- The name that encloses the enums. -/
  space : String
  /-- The type that holds the entry points. -/
  nativeClass : String
deriving DecidableEq, Repr

end RegistryBindings.Artifact
