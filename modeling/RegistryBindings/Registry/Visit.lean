import RegistryBindings.Markup.Content
import RegistryBindings.Registry.ReadError

/-!
# Visiting content

A visitor goes through the content of one element, in the order of the document, and carries a state
along. It stops at the first problem, which is either one of its own or a fault in the markup. Contents of
elements that the visitor has no use for are skipped, but a fault in them stops it all the same.
-/

namespace RegistryBindings.Registry

open Markup

/-- Passes over content, of which only the faults matter. -/
def skip (content : Content) : Except ReadError Unit :=
  match content.fault? with
  | none => .ok ()
  | some fault => .error (.markup fault)

/-- What is done with each child of an element. -/
structure Visitor (σ : Type) where
  text : σ → List Char → σ := fun state _ => state
  void : σ → Tag → Except ReadError σ := fun state _ => .ok state
  element : σ → Tag → Content → Except ReadError σ

namespace Visitor

variable {σ : Type}

def visit (visitor : Visitor σ) (state : σ) : Content → Except ReadError σ
  | .done => .ok state
  | .failed fault => .error (.markup fault)
  | .text characters next => visitor.visit (visitor.text state characters) next
  | .void tag next => do
    let state ← visitor.void state tag
    visitor.visit state next
  | .element tag body next => do
    let state ← visitor.element state tag body
    visitor.visit state next

/-- Visits elements of which only the tag matters, whether they have content or not. -/
def items (read : σ → Tag → Except ReadError σ) : Visitor σ where
  void := read
  element state tag body := do
    let state ← read state tag
    skip body
    return state

/-- Visits elements that have content of their own. `read` says what to do with those of a known name;
the others are skipped. -/
def sections (read : String → Option (σ → Tag → Content → Except ReadError σ)) : Visitor σ where
  element state tag body :=
    match read tag.name with
    | some visitElement => visitElement state tag body
    | none => do
      skip body
      return state

end Visitor

end RegistryBindings.Registry
