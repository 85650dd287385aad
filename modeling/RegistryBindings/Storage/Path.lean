import RegistryBindings.Text.Blank

/-!
# Paths

A path is a text of names with slashes between them. An empty name and a single dot lead nowhere, and two
dots lead to the directory above.
-/

namespace RegistryBindings.Storage.Path

open Text

def isAbsolute (path : String) : Bool :=
  path.toList.head? = some '/'

/-- The names of a path, with the empty ones. -/
def names (path : String) : List String :=
  (pieces '/' path.toList).map String.ofList

def isIdle (name : String) : Bool :=
  name = "" || name = "."

/-- The names that lead somewhere. -/
def steps (path : String) : List String :=
  (names path).filter (!isIdle ·)

/-- The name of the file that the path is for. Paths that end above a directory name none. -/
def fileName? (path : String) : Option String :=
  match (steps path).getLast? with
  | some name => if name = ".." then none else some name
  | none => none

def directory (path : String) : String :=
  let above := ((((names path).reverse.dropWhile isIdle).drop 1).dropWhile isIdle).reverse
  if above = [] then (if isAbsolute path then "/" else ".") else "/".intercalate above

/-- What stands after the last name that leads somewhere. -/
inductive Ending where
  | bare
  | slashed
  /-- Among the slashes stands a single dot, so that the name before it must be a directory's. -/
  | dotted
deriving DecidableEq, Repr

/-- What names that lead nowhere make of the end of a path. -/
def Ending.ofNames (names : List String) : Ending :=
  if names = [] then .bare else if "." ∈ names then .dotted else .slashed

def ending (path : String) : Ending :=
  .ofNames ((names path).reverse.takeWhile isIdle)

/-- The path of a file in a directory. A file with an absolute path stays where it is. -/
def join (directory file : String) : String :=
  if isAbsolute file || directory.isEmpty then file
  else if directory.toList.getLast? = some '/' then directory ++ file
  else directory ++ "/" ++ file

end RegistryBindings.Storage.Path
