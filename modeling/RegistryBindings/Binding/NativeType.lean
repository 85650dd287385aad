/-!
# Native types

What a type of the registry means to the bindings, whatever the target language calls it: a scalar, a
pointer to a scalar some levels deep, the enum type of a group, or a token that is passed on as it stands.
-/

namespace RegistryBindings.Binding

inductive Scalar where
  | bool
  | int8
  | uint8
  | int16
  | uint16
  | int32
  | uint32
  | int64
  | uint64
  | intPtr
  | float
  | double
  | char8
  /-- No value, or a pointee that is not looked at. -/
  | void
deriving DecidableEq, Repr

inductive Mutability where
  | constant
  | mutable
deriving DecidableEq, Repr

inductive NativeType where
  | scalar (scalar : Scalar)
  | pointer (pointee : Scalar) (mutability : Mutability) (depth : Nat)
  | enum (group : String)
  | verbatim (token : String)
deriving DecidableEq, Repr

namespace NativeType

/-- A pointer that is only passed on: handles, callbacks and pointers of unknown type. -/
def opaquePointer : NativeType := pointer .void .constant 1

def isVoid (type : NativeType) : Bool :=
  type = scalar .void

end NativeType

end RegistryBindings.Binding
