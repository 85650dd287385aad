import RegistryBindings.Artifact.Basic
import RegistryBindings.Binding.Interface

/-!
# Beef artifacts

Enums are plain enums over `uint32` that allow duplicate values. Commands extend a static class: each has
a function type alias, a static field of that type, and a method that calls the field.
-/

namespace RegistryBindings.Artifact.StaticExtension

open Binding

def scalarName : Scalar → String
  | .bool => "bool"
  | .int8 => "int8"
  | .uint8 => "uint8"
  | .int16 => "int16"
  | .uint16 => "uint16"
  | .int32 => "int32"
  | .uint32 => "uint32"
  | .int64 => "int64"
  | .uint64 => "uint64"
  | .intPtr => "int"
  | .float => "float"
  | .double => "double"
  | .char8 => "char8"
  | .void => "void"

def spell : NativeType → String
  | .scalar scalar => scalarName scalar
  | .pointer pointee _ depth => scalarName pointee ++ String.join (List.replicate depth "*")
  | .enum group => group
  | .verbatim token => token

def enumsPrologue (names : SharedNames) : List String :=
  ["using System;",
    "",
    "namespace " ++ names.space ++ ";"]

def enumMember (member : EnumMember) : String :=
  "\t" ++ member.identifier ++ " = " ++ member.value ++ ","

def enumBlock (block : EnumBlock) : List String :=
  ["[AllowDuplicates]",
    "public enum " ++ block.name ++ " : uint32",
    "\x7b"] ++
  block.members.map enumMember ++
  ["\x7d"]

def enumsEpilogue : List String := []

def typedParameter (parameter : BoundParameter) : String :=
  spell parameter.type ++ " " ++ parameter.name

/-- The alias of a command's type, its field, and the method that calls the field. -/
def entryPoint (names : SharedNames) (command : BoundCommand) : List String :=
  let returned := spell command.returnType
  let parameters := commaSeparated (command.parameters.map typedParameter)
  let arguments := commaSeparated (command.parameters.map (·.name))
  ["\tprivate typealias " ++ command.name ++ "_t = function " ++ returned ++ "(" ++ parameters ++ ");",
    "\tprivate static " ++ command.name ++ "_t p_" ++ command.name ++ ";",
    "\t[CallingConvention(" ++ names.nativeClass ++ ".CallConv)]",
    "\tpublic static " ++ returned ++ " " ++ command.name ++ "(" ++ parameters ++ ") => p_" ++
      command.name ++ "(" ++ arguments ++ ");"]

def assignment (name : String) : String :=
  "\t\tLoadFunction(\"" ++ name ++ "\", out p_" ++ name ++ ");"

def probeMethod (probe : String) : String :=
  "Load" ++ withoutApi probe

def loaderStart (method : String) : List String :=
  ["\tpublic static void " ++ method ++ "(function void*(StringView) getProcAddress)",
    "\t\x7b",
    "\t\ts_getProcAddress = getProcAddress;"]

def probeLoader (probe : Probe) : List String :=
  loaderStart (probeMethod probe.name) ++
  (if probe.present then [assignment probe.name] else []) ++
  ["\t\x7d"]

def fullLoader (commands : List BoundCommand) : List String :=
  loaderStart "LoadAllFunctions" ++
  [""] ++
  commands.map (fun command => assignment command.name) ++
  ["\t\x7d"]

def resolveMethod : List String :=
  ["\tprivate static void LoadFunction<T>(StringView name, out T field)",
    "\t\x7b",
    "\t\tvoid* funcPtr = s_getProcAddress(name);",
    "\t\tif (funcPtr != null)",
    "\t\t\x7b",
    "\t\t\tfield = *(T*)(void*)&funcPtr;",
    "\t\t\x7d",
    "\t\telse",
    "\t\t\x7b",
    "\t\t\tfield = default(T);",
    "\t\t\x7d",
    "\t\x7d"]

def commands (names : SharedNames) (commands : List BoundCommand) (probe : Probe) : List String :=
  ["using System;",
    "namespace " ++ names.space ++ ";",
    "extension " ++ names.nativeClass,
    "\x7b",
    "\tprivate static function void*(StringView) s_getProcAddress;",
    "",
    "\tprivate const CallingConventionAttribute.Kind CallConv = .Stdcall;"] ++
  commands.flatMap (fun command => "" :: entryPoint names command) ++
  [""] ++ probeLoader probe ++
  [""] ++ fullLoader commands ++
  [""] ++ resolveMethod ++
  ["\x7d"]

end RegistryBindings.Artifact.StaticExtension
