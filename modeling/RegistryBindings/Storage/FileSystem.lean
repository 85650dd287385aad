import RegistryBindings.Storage.Path
import Std.Data.ExtTreeMap

/-!
# File systems

A file system is a finite map from locations to files and directories. A location is the list of names
that leads to it from the root, which is always a directory. Paths are resolved name by name from the
working directory or the root, and every name is looked up in a directory that exists. Paths and names
have a greatest size in bytes, and no path holds a null character.
-/

namespace RegistryBindings.Storage

abbrev Location := List String

inductive Entry where
  | directory
  | file (bytes : Array UInt8)
deriving DecidableEq

inductive FileFault where
  | notFound
  | isADirectory
  | notADirectory
  | alreadyExists
  | resourceBusy
  /-- The path holds a null character. -/
  | invalidInput
  /-- The path or one of its names is too long. -/
  | invalidFilename
  /-- The bytes of a text file are not UTF-8. -/
  | invalidData
deriving DecidableEq, Repr

namespace FileFault

def name : FileFault → String
  | notFound => "NotFound"
  | isADirectory => "IsADirectory"
  | notADirectory => "NotADirectory"
  | alreadyExists => "AlreadyExists"
  | resourceBusy => "ResourceBusy"
  | invalidInput => "InvalidInput"
  | invalidFilename => "InvalidFilename"
  | invalidData => "InvalidData"

end FileFault

structure FileSystem where
  entries : Std.ExtTreeMap Location Entry
  workingDirectory : Location
deriving DecidableEq

/-- An operation on a file system, which keeps what was done to it before a failure. -/
abbrev FileAction (ε : Type) := ExceptT ε (StateM FileSystem)

namespace FileSystem

/-- A file system with an empty working directory and nothing else. -/
def empty : FileSystem where
  entries := (∅ : Std.ExtTreeMap Location Entry).insert ["work"] .directory
  workingDirectory := ["work"]

def lookup? (files : FileSystem) (location : Location) : Option Entry :=
  if location = [] then some .directory else files.entries[location]?

def put (files : FileSystem) (location : Location) (entry : Entry) : FileSystem :=
  { files with entries := files.entries.insert location entry }

def remove (files : FileSystem) (location : Location) : FileSystem :=
  { files with entries := files.entries.erase location }

/-- Puts the entry of one location in place of that of another. -/
def move (files : FileSystem) (source destination : Location) : FileSystem :=
  match files.entries[source]? with
  | some entry => (files.remove source).put destination entry
  | none => files

/-- Where one name leads from a directory. -/
def next (directory : Location) (name : String) : Location :=
  if Path.isIdle name then directory
  else if name = ".." then directory.dropLast
  else directory ++ [name]

/-- The greatest size of a name, in bytes. -/
def nameLimit : Nat := 255

/-- The greatest size of a path, in bytes. -/
def pathLimit : Nat := 4095

def checkPath (path : String) : Except FileFault Unit :=
  if '\x00' ∈ path.toList then .error .invalidInput
  else if pathLimit < path.utf8ByteSize then .error .invalidFilename
  else .ok ()

/-- Where a name leads from a location, which must be a directory. What it leads to need not exist. -/
def step (files : FileSystem) (location : Location) (name : String) : Except FileFault Location :=
  match files.lookup? location with
  | none => .error .notFound
  | some (.file _) => .error .notADirectory
  | some .directory =>
    if nameLimit < name.utf8ByteSize then .error .invalidFilename else .ok (next location name)

def walk (files : FileSystem) (location : Location) (names : List String) : Except FileFault Location :=
  names.foldlM files.step location

def start (files : FileSystem) (path : String) : Location :=
  if Path.isAbsolute path then [] else files.workingDirectory

def locate (files : FileSystem) (path : String) : Except FileFault Location := do
  checkPath path
  if path.isEmpty then throw .notFound
  files.walk (files.start path) (Path.names path)

def directoryOf (files : FileSystem) (path : String) : Except FileFault Location := do
  let location ← files.locate (Path.directory path)
  match files.lookup? location with
  | none => throw .notFound
  | some (.file _) => throw .notADirectory
  | some .directory => return location

/-- The path from the root that leads where a path leads. -/
def absolutePath (files : FileSystem) (path : String) : String :=
  Path.join ("/" ++ "/".intercalate files.workingDirectory) path

def readBytes (files : FileSystem) (path : String) : Except FileFault (Array UInt8) := do
  match files.lookup? (← files.locate path) with
  | none => throw .notFound
  | some .directory => throw .isADirectory
  | some (.file bytes) => return bytes

def readText (files : FileSystem) (path : String) : Except FileFault String := do
  match String.fromUTF8? ⟨← files.readBytes path⟩ with
  | some text => return text
  | none => throw .invalidData

/-- Writes a file in place, whether it exists or not. A path that ends in a slash is for no file,
whatever its name leads to. -/
def writeBytes (files : FileSystem) (path : String) (bytes : Array UInt8) :
    Except FileFault FileSystem := do
  checkPath path
  match Path.fileName? path with
  | none => do
    discard (files.locate path)
    throw .isADirectory
  | some name =>
    let directory ← files.directoryOf path
    if Path.ending path = .slashed then throw .isADirectory
    let location ← files.step directory name
    match files.lookup? location, Path.ending path with
    | some .directory, _ => throw .isADirectory
    | some (.file _), .dotted => throw .notADirectory
    | none, .dotted => throw .notFound
    | _, _ => return files.put location (.file bytes)

/-- Where a finished file of the directory goes when it is moved to a path, unless something is in its
way. -/
def destination (files : FileSystem) (directory : Location) (path name : String) :
    Except FileFault Location := do
  checkPath path
  let location ← files.step directory name
  match Path.ending path, files.lookup? location with
  | .bare, some .directory => throw .isADirectory
  | .bare, _ => return location
  | .slashed, _ => throw .notADirectory
  | .dotted, some .directory => throw .resourceBusy
  | .dotted, some (.file _) => throw .notADirectory
  | .dotted, none => throw .notFound

/-- Makes the directories that the names lead through. Until one is `made`, the path is looked up as a
whole, and a file that it leads through is no directory. From then on they are made one at a time, and a
file in the place of one exists already. Only a dot at the end looks inside the file either way. -/
def makeDirectoriesFrom (made : Bool) (location : Location) : List String → FileAction FileFault Unit
  | [] => return ()
  | name :: names => do
    let location ← MonadExcept.ofExcept ((← get).step location name)
    let last := names.all Path.isIdle
    match (← get).lookup? location with
    | some .directory => makeDirectoriesFrom made location names
    | some (.file _) =>
      let looksInside := if last then Path.Ending.ofNames names == .dotted else !made
      throw (if looksInside then .notADirectory else .alreadyExists)
    | none =>
      if last && Path.Ending.ofNames names == .dotted then throw .notFound
      modify (·.put location .directory)
      makeDirectoriesFrom true location names

def makeDirectories (path : String) : FileAction FileFault Unit := do
  MonadExcept.ofExcept (checkPath path)
  makeDirectoriesFrom false ((← get).start path) (Path.names path)

/-- One line for an entry: a file with its size, a directory with a slash. -/
def describe (location : Location) : Entry → String
  | .directory => "/".intercalate location ++ "/"
  | .file bytes => "/".intercalate location ++ " " ++ toString bytes.size

/-- What is in the working directory and below it, sorted. -/
def listing (files : FileSystem) : List String :=
  (files.entries.toList.filterMap fun (location, entry) =>
    if files.workingDirectory.isPrefixOf location && files.workingDirectory ≠ location then
      some (describe (location.drop files.workingDirectory.length) entry)
    else none).mergeSort fun first second => !(second < first)

end FileSystem

end RegistryBindings.Storage
