import RegistryBindings.Artifact.Basic
import RegistryBindings.Binding.Interface

/-!
# Rust artifacts

Enums are transparent newtypes over `u32` inside one module, with an associated constant for each member,
so that members may share a value. Commands are the optional slots of a loader struct: each has a function
pointer alias, a slot, and a method that forwards its arguments to the slot and fails if it is empty.
-/

namespace RegistryBindings.Artifact.LoaderStruct

open Binding

def scalarName : Scalar → String
  | .bool => "u8"
  | .int8 => "i8"
  | .uint8 => "u8"
  | .int16 => "i16"
  | .uint16 => "u16"
  | .int32 => "i32"
  | .uint32 => "u32"
  | .int64 => "i64"
  | .uint64 => "u64"
  | .intPtr => "isize"
  | .float => "f32"
  | .double => "f64"
  | .char8 => "core::ffi::c_char"
  | .void => "()"

def pointeeName : Scalar → String
  | .void => "core::ffi::c_void"
  | pointee => scalarName pointee

/-- Mutability belongs to the innermost pointer. -/
def spell : NativeType → String
  | .scalar scalar => scalarName scalar
  | .pointer pointee mutability depth =>
    String.join (List.replicate (depth - 1) "*mut ") ++
      (match mutability with | .constant => "*const " | .mutable => "*mut ") ++ pointeeName pointee
  | .enum group => group
  | .verbatim token => token

def header : String := "// This file is generated by glbind. Do not edit."

def enumsPrologue (names : SharedNames) : List String :=
  [header,
    "",
    "#[allow(non_camel_case_types, non_snake_case, non_upper_case_globals, dead_code)]",
    "pub mod " ++ names.space ++ " \x7b"]

def enumMember (member : EnumMember) : String :=
  "        pub const " ++ member.identifier ++ ": Self = Self(" ++ member.value ++ ");"

/-- A block without members still has its type. -/
def enumBlock (block : EnumBlock) : List String :=
  ["    #[repr(transparent)]",
    "    #[derive(Debug, Clone, Copy, Default, PartialEq, Eq, Hash)]",
    "    pub struct " ++ block.name ++ "(pub u32);"] ++
  match block.members with
  | [] => ["    impl " ++ block.name ++ " \x7b\x7d"]
  | members => ["    impl " ++ block.name ++ " \x7b"] ++ members.map enumMember ++ ["    \x7d"]

def enumsEpilogue : List String := ["\x7d"]

def typedParameter (parameter : BoundParameter) : String :=
  parameter.name ++ ": " ++ spell parameter.type

/-- What follows the parameters of a command that returns something. -/
def returnSuffix (command : BoundCommand) : String :=
  if command.returnType.isVoid then "" else " -> " ++ spell command.returnType

def typeAlias (command : BoundCommand) : List String :=
  ["#[allow(non_camel_case_types, non_snake_case)]",
    "pub type PFN_" ++ command.name ++ " = unsafe extern \"system\" fn(" ++
      commaSeparated (command.parameters.map typedParameter) ++ ")" ++ returnSuffix command ++ ";"]

def resolver : String := "FnMut(&str) -> *const core::ffi::c_void"

def slot (command : BoundCommand) : String :=
  "    p_" ++ command.name ++ ": Option<PFN_" ++ command.name ++ ">,"

def table (names : SharedNames) (commands : List BoundCommand) : List String :=
  ["/// Entry point table for `" ++ names.nativeClass ++ "`.",
    "///",
    "/// Every entry point starts unloaded. Loading is not synchronized:",
    "/// callers sharing one table must not run its loaders concurrently.",
    "#[allow(non_snake_case)]",
    "#[derive(Default)]",
    "pub struct " ++ names.nativeClass ++ " \x7b",
    "    get_proc_address: Option<Box<dyn " ++ resolver ++ ">>,"] ++
  commands.map slot ++
  ["\x7d", ""]

def constructor : List String :=
  ["    /// Creates a table with every entry point unloaded.",
    "    #[must_use]",
    "    pub fn new() -> Self \x7b",
    "        Self::default()",
    "    \x7d"]

/-- The method that forwards a call to its slot. -/
def trampoline (command : BoundCommand) : List String :=
  ["    #[inline]",
    "    pub unsafe extern \"system-unwind\" fn " ++ command.name ++ "(" ++
      commaSeparated ("&self" :: command.parameters.map typedParameter) ++ ")" ++
      returnSuffix command ++ " \x7b",
    "        unsafe \x7b (self.p_" ++ command.name ++ ".unwrap_or_else(|| missing_fn(\"" ++ command.name ++
      "\")))(" ++ commaSeparated (command.parameters.map (·.name)) ++ ") \x7d",
    "    \x7d"]

def assignment (name : String) : String :=
  "self.p_" ++ name ++ " = self.load_function(\"" ++ name ++ "\");"

/-- A loader that stores the resolver and binds the named commands. -/
def loader (method : String) (commands : List String) : List String :=
  ["    pub fn " ++ method ++ "<F>(&mut self, get_proc_address: F)",
    "    where",
    "        F: " ++ resolver ++ " + 'static,",
    "    \x7b",
    "        self.get_proc_address = Some(Box::new(get_proc_address));"] ++
  commands.map (fun name => "        " ++ assignment name) ++
  ["    \x7d"]

def probeMethod (probe : String) : String :=
  "load_" ++ toSnakeCase (withoutApi probe)

def probeLoader (probe : Probe) : List String :=
  if probe.present then
    ["    /// Stores the resolver and binds only `" ++ probe.name ++ "`."] ++
      loader (probeMethod probe.name) [probe.name]
  else
    ["    /// Stores the resolver without binding anything."] ++ loader (probeMethod probe.name) []

def fullLoader (commands : List BoundCommand) : List String :=
  ["    /// Stores the resolver and binds every entry point it resolves.",
    "    ///",
    "    /// Unresolved entry points stay unloaded."] ++
  loader "load_all_functions" (commands.map (·.name))

def loadArm (command : BoundCommand) : List String :=
  ["            \"" ++ command.name ++ "\" => \x7b",
    "                " ++ assignment command.name,
    "                self.p_" ++ command.name ++ ".is_some()",
    "            \x7d"]

def singleLoader (commands : List BoundCommand) : List String :=
  ["    /// Re-resolves one entry point with the stored resolver.",
    "    ///",
    "    /// Returns whether the entry point is bound afterwards.",
    "    pub fn load(&mut self, name: &str) -> bool \x7b",
    "        match name \x7b"] ++
  commands.flatMap loadArm ++
  ["            _ => false,",
    "        \x7d",
    "    \x7d"]

def loadedArm (command : BoundCommand) : String :=
  "            \"" ++ command.name ++ "\" => self.p_" ++ command.name ++ ".is_some(),"

def loadedQuery (commands : List BoundCommand) : List String :=
  ["    /// Returns whether the named entry point is bound.",
    "    #[must_use]",
    "    pub fn is_loaded(&self, name: &str) -> bool \x7b",
    "        match name \x7b"] ++
  commands.map loadedArm ++
  ["            _ => false,",
    "        \x7d",
    "    \x7d"]

def resolveMethod : List String :=
  ["    fn load_function<T: Copy>(&mut self, name: &str) -> Option<T> \x7b",
    "        let get_proc_address = self.get_proc_address.as_deref_mut()?;",
    "        let ptr = get_proc_address(name);",
    "        if ptr.is_null() \x7b",
    "            return None;",
    "        \x7d",
    "        Some(unsafe \x7b core::mem::transmute_copy::<*const core::ffi::c_void, T>(&ptr) \x7d)",
    "    \x7d"]

def methods (names : SharedNames) (commands : List BoundCommand) (probe : Probe) : List String :=
  ["#[allow(",
    "    non_snake_case,",
    "    dead_code,",
    "    unused_unsafe,",
    "    improper_ctypes_definitions,",
    "    clippy::too_many_arguments,",
    "    clippy::missing_safety_doc",
    ")]",
    "impl " ++ names.nativeClass ++ " \x7b"] ++
  constructor ++
  commands.flatMap (fun command => "" :: trampoline command) ++
  [""] ++ probeLoader probe ++
  [""] ++ fullLoader commands ++
  [""] ++ singleLoader commands ++
  [""] ++ loadedQuery commands ++
  [""] ++ resolveMethod ++
  ["\x7d", ""]

def missingFunction : List String :=
  ["#[cold]",
    "#[inline(never)]",
    "fn missing_fn(name: &str) -> ! \x7b",
    "    panic!(\"\x7b\x7d is not loaded\", name)",
    "\x7d"]

def commands (names : SharedNames) (commands : List BoundCommand) (probe : Probe) : List String :=
  [header,
    "// Must be included in the same module as the enums artifact declaring `" ++ names.space ++ "`.",
    "",
    "#[allow(unused_imports)]",
    "use self::" ++ names.space ++ "::*;",
    ""] ++
  commands.flatMap typeAlias ++
  (if commands.isEmpty then [] else [""]) ++
  table names commands ++
  methods names commands probe ++
  missingFunction

end RegistryBindings.Artifact.LoaderStruct
