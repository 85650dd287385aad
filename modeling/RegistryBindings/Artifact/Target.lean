import RegistryBindings.Artifact.LoaderStruct
import RegistryBindings.Artifact.StaticExtension

/-!
# Target languages

The languages that bindings are written in, each with its spelling of types, its reserved words and the
names and contents of its two artifacts.
-/

namespace RegistryBindings.Artifact

open Binding

inductive Target where
  | rust
  | beef
deriving DecidableEq, Repr

namespace Target

def name : Target → String
  | rust => "rust"
  | beef => "beef"

/-- The target of a name or a file extension, in either case. -/
def ofName? (name : String) : Option Target :=
  match name.toLower with
  | "rust" | "rs" => some rust
  | "beef" | "bf" => some beef
  | _ => none

def enumsFile : Target → String
  | rust => "enums.rs"
  | beef => "Enums.bf"

def commandsFile (nativeClass : String) : Target → String
  | rust => toSnakeCase nativeClass ++ ".rs"
  | beef => nativeClass ++ ".bf"

/-- The words that no parameter may be named. Those that cannot be escaped are left out. -/
def reservedWords : Target → List String
  | rust =>
    ["abstract", "as", "async", "await", "become", "box", "break", "const", "continue", "do", "dyn", "else",
      "enum", "extern", "false", "final", "fn", "for", "gen", "if", "impl", "in", "let", "loop", "macro",
      "match", "mod", "move", "mut", "override", "priv", "pub", "ref", "return", "static", "struct",
      "trait", "true", "try", "type", "typeof", "unsafe", "unsized", "use", "virtual", "where", "while",
      "yield"]
  | beef => ["params", "string", "ref", "base", "box"]

def escapeMark : Target → String
  | rust => "r#"
  | beef => "@"

def spell : Target → NativeType → String
  | rust => LoaderStruct.spell
  | beef => StaticExtension.spell

def enumsPrologue : Target → SharedNames → List String
  | rust => LoaderStruct.enumsPrologue
  | beef => StaticExtension.enumsPrologue

def enumBlock : Target → EnumBlock → List String
  | rust => LoaderStruct.enumBlock
  | beef => StaticExtension.enumBlock

def enumsEpilogue : Target → List String
  | rust => LoaderStruct.enumsEpilogue
  | beef => StaticExtension.enumsEpilogue

/-- The lines of the enums artifact, with one blank line between blocks. -/
def enums (target : Target) (names : SharedNames) (blocks : List EnumBlock) : List String :=
  target.enumsPrologue names ++ [""].intercalate (blocks.map target.enumBlock) ++ target.enumsEpilogue

def commands : Target → SharedNames → List BoundCommand → Probe → List String
  | rust => LoaderStruct.commands
  | beef => StaticExtension.commands

end Target

end RegistryBindings.Artifact
