import RegistryBindings.Proofs.Markup.ElementEnds
import RegistryBindings.Proofs.Registry.Collecting

/-!
# Reading in one pass

The readers take an element's content as a whole. Here they take the events instead, one after the other, and the place
in the stream is all that says where an element ends: a reader that meets a start tag has another one read that element,
and stops itself at the first end tag that is left to it. Only the reader that passes over an element counts tags.
-/

namespace RegistryBindings.Registry

open Markup Text

/-! ### Readers of events -/

/-- What is made of the first events, and those that are left. -/
structure Reader (α : Type) where
  read : Events → Except ReadError (α × Events)
  length_le : ∀ {events value rest}, read events = .ok (value, rest) → rest.length ≤ events.length

namespace Reader

variable {α β : Type}

def lift (result : Except ReadError α) : Reader α where
  read events := do return (← result, events)
  length_le h := by
    obtain ⟨_, -, hvalue⟩ := exists_ok_of_bind h
    cases hvalue
    exact Nat.le_refl _

def bind (first : Reader α) (next : α → Reader β) : Reader β where
  read events := do
    let (value, rest) ← first.read events
    (next value).read rest
  length_le h := by
    obtain ⟨⟨_, _⟩, hfirst, hnext⟩ := exists_ok_of_bind h
    exact Nat.le_trans ((next _).length_le hnext) (first.length_le hfirst)

instance : Monad Reader where
  pure value := lift (.ok value)
  bind := bind

instance : MonadLift (Except ReadError) Reader where
  monadLift := lift

end Reader

/-- What follows the end tag of an element. `depth` counts the element itself and those that are open inside of it. -/
def afterEnd (depth : Nat) : Events → Except ReadError Events
  | .ended => .ok .ended
  | .failed fault => .error (.markup fault)
  | .cons (.opening _) rest => afterEnd (depth + 1) rest
  | .cons (.closing _) rest => if depth = 1 then .ok rest else afterEnd (depth - 1) rest
  | .cons (.text _) rest | .cons (.void _) rest | .cons .aside rest => afterEnd depth rest

theorem length_of_afterEnd {depth : Nat} {events rest : Events} (h : afterEnd depth events = .ok rest) :
    rest.length ≤ events.length := by
  induction events generalizing depth with
  | ended =>
    cases h
    exact Nat.le_refl _
  | failed fault => cases h
  | cons event events ih =>
    cases event with
    | closing name =>
      rw [afterEnd] at h
      split at h
      · cases h
        exact Nat.le_succ _
      · exact Nat.le_succ_of_le (ih h)
    | opening tag => exact Nat.le_succ_of_le (ih h)
    | text characters => exact Nat.le_succ_of_le (ih h)
    | void tag => exact Nat.le_succ_of_le (ih h)
    | aside => exact Nat.le_succ_of_le (ih h)

def passOver : Reader Unit where
  read events := do return ((), ← afterEnd 1 events)
  length_le h := by
    obtain ⟨_, hafter, hvalue⟩ := exists_ok_of_bind h
    cases hvalue
    exact length_of_afterEnd hafter

structure Scanner (σ : Type) where
  text : σ → List Char → σ := fun state _ => state
  void : σ → Tag → Except ReadError σ := fun state _ => .ok state
  element : σ → Tag → Reader σ

namespace Scanner

variable {σ : Type}

/-- Reads up to the first end tag that no element inside has taken. -/
def scan (scanner : Scanner σ) (state : σ) : Events → Except ReadError (σ × Events)
  | .ended => .ok (state, .ended)
  | .failed fault => .error (.markup fault)
  | .cons (.closing _) rest => .ok (state, rest)
  | .cons (.text characters) rest => scanner.scan (scanner.text state characters) rest
  | .cons .aside rest => scanner.scan state rest
  | .cons (.void tag) rest =>
    match scanner.void state tag with
    | .ok state => scanner.scan state rest
    | .error error => .error error
  | .cons (.opening tag) rest =>
    match h : (scanner.element state tag).read rest with
    | .ok (state, after) =>
      have : after.length < rest.length + 1 := Nat.lt_succ_of_le ((scanner.element _ tag).length_le h)
      scanner.scan state after
    | .error error => .error error
termination_by events => events.length
decreasing_by all_goals simp only [Events.length]; omega

theorem length_of_scan {scanner : Scanner σ} {state final : σ} {events rest : Events}
    (h : scanner.scan state events = .ok (final, rest)) : rest.length ≤ events.length := by
  fun_induction Scanner.scan scanner state events with
  | case1 state =>
    cases h
    exact Nat.le_refl _
  | case2 | case7 | case9 => cases h
  | case3 state name after =>
    cases h
    exact Nat.le_succ _
  | case4 state characters events ih => exact Nat.le_succ_of_le (ih h)
  | case5 state events ih => exact Nat.le_succ_of_le (ih h)
  | case6 state tag events next _ ih => exact Nat.le_succ_of_le (ih h)
  | case8 state tag events next after _ hlt ih => exact Nat.le_trans (ih h) (Nat.le_of_lt hlt)

def run (scanner : Scanner σ) (state : σ) : Reader σ where
  read := scanner.scan state
  length_le := length_of_scan

/-- Reads elements of which only the tag matters, whether they have content or not. -/
def items (read : σ → Tag → Except ReadError σ) : Scanner σ where
  void := read
  element state tag := do
    let state ← read state tag
    passOver
    return state

/-- Reads elements that have content of their own, and passes over those without a known name. -/
def sections (read : String → Option (σ → Tag → Reader σ)) : Scanner σ where
  element state tag :=
    match read tag.name with
    | some readElement => readElement state tag
    | none => do
      passOver
      return state

end Scanner

/-! ### The elements of a registry -/

def enumScanner (selection : Selection) (block : Tag) : Scanner Declarations :=
  .items (enumVisitor selection block).void

def memberScanner : Scanner (List String) :=
  .items memberVisitor.void

def listingReader (tag : Tag) : Reader Listing := do
  let name ← requiredAttribute tag "name"
  return ⟨name, ← memberScanner.run []⟩

def listingScanner : Scanner Declarations :=
  .sections fun
    | "group" => some fun declarations tag => return declarations.addListing (← listingReader tag)
    | _ => none

def textScanner : Scanner (List Char) where
  text := textVisitor.text
  element text _ := do
    passOver
    return text

def declarationScanner : Scanner PartialDeclaration where
  text := declarationVisitor.text
  element declaration child :=
    match child.name with
    | "ptype" => return declaration.addSpelling ([' '] ++ (← textScanner.run []) ++ [' '])
    | "name" => return { declaration with name? := some (trim (← textScanner.run [])) }
    | _ => do
      passOver
      return declaration

def declarationReader (tag : Tag) : Reader (String × TypeRef) := do
  let declaration ← declarationScanner.run {}
  match declaration.name? with
  | some name =>
    return (String.ofList name, ⟨String.ofList (collapse declaration.spelling), tag.value? "group"⟩)
  | none => .lift (throw (.missingElement tag.name "name"))

def partScanner : Scanner PartialCommand :=
  .sections fun
    | "proto" => some fun command tag => return { command with proto? := some (← declarationReader tag) }
    | "param" => some fun command tag => do
      let (name, type) ← declarationReader tag
      return { command with parameters := command.parameters ++ [⟨name, type⟩] }
    | _ => none

def commandReader : Reader Command := do
  let command ← partScanner.run {}
  match command.proto? with
  | some (name, type) => return ⟨name, type, command.parameters⟩
  | none => .lift (throw (.missingElement "command" "proto"))

def commandScanner : Scanner Declarations :=
  .sections fun
    | "command" => some fun declarations _ => return declarations.addCommand (← commandReader)
    | _ => none

def blockReader (kind : BlockKind) (tag : Tag) : Reader InterfaceBlock :=
  (Scanner.items itemVisitor.void).run { kind, profile? := tag.value? "profile", api? := tag.value? "api" }

def blockScanner : Scanner (List InterfaceBlock) :=
  .sections fun
    | "require" => some fun blocks tag => return blocks ++ [← blockReader .require tag]
    | "remove" => some fun blocks tag => return blocks ++ [← blockReader .remove tag]
    | _ => none

def featureReader (tag : Tag) : Reader Feature := do
  let api ← requiredAttribute tag "api"
  let name ← requiredAttribute tag "name"
  return ⟨api, name, (tag.value? "number").getD "", ← blockScanner.run []⟩

def extensionReader (tag : Tag) : Reader Extension := do
  let name ← requiredAttribute tag "name"
  return ⟨name, ((tag.value? "supported").map (listItems '|')).getD [], ← blockScanner.run []⟩

/-! ### A whole document -/

def sectionReader? (selection : Selection) (declarations : Declarations) (tag : Tag) : Option (Reader Declarations) :=
  match tag.name with
  | "enums" => some ((enumScanner selection tag).run declarations)
  | "groups" => some (listingScanner.run declarations)
  | "commands" => some (commandScanner.run declarations)
  | "feature" => some do return declarations.addFeature (← featureReader tag)
  | "extension" => some do return declarations.addExtension (← extensionReader tag)
  | _ => none

/-- Looks for sections. Outside of them end tags have no meaning. -/
def scanOutside (selection : Selection) (declarations? : Option Declarations) :
    Events → Except ReadError (Option Declarations)
  | .ended => .ok declarations?
  | .failed fault => .error (.markup fault)
  | .cons (.opening tag) rest =>
    match declarations?.bind fun declarations => sectionReader? selection declarations tag with
    | some reader =>
      match h : reader.read rest with
      | .ok (declarations, after) =>
        have : after.length < rest.length + 1 := Nat.lt_succ_of_le (reader.length_le h)
        scanOutside selection (some declarations) after
      | .error error => .error error
    | none => scanOutside selection (entered? declarations? tag) rest
  | .cons (.text _) rest | .cons (.void _) rest | .cons (.closing _) rest | .cons .aside rest =>
    scanOutside selection declarations? rest
termination_by events => events.length
decreasing_by all_goals simp only [Events.length]; omega

def readInOnePass (text : String) (selection : Selection) : Except ReadError Registry := do
  match ← scanOutside selection none (Events.ofText text) with
  | some declarations => return declarations.registry selection
  | none => throw .noRegistryElement

/-- The readers of elements, with what each of them has been given before it looks at the content. -/
inductive ElementReader : Type → Type
  | enums (selection : Selection) (tag : Tag) (declarations : Declarations) : ElementReader Declarations
  | groups (declarations : Declarations) : ElementReader Declarations
  | group (tag : Tag) : ElementReader Listing
  | commands (declarations : Declarations) : ElementReader Declarations
  | command : ElementReader Command
  | declaration (tag : Tag) : ElementReader (String × TypeRef)
  | feature (tag : Tag) : ElementReader Feature
  | extension (tag : Tag) : ElementReader Extension
  | blocks : ElementReader (List InterfaceBlock)
  | block (kind : BlockKind) (tag : Tag) : ElementReader InterfaceBlock
  | text : ElementReader (List Char)
  | skipped : ElementReader Unit

namespace ElementReader

variable {α : Type}

def reader : ElementReader α → Reader α
  | .enums selection tag declarations => (enumScanner selection tag).run declarations
  | .groups declarations => listingScanner.run declarations
  | .group tag => listingReader tag
  | .commands declarations => commandScanner.run declarations
  | .command => commandReader
  | .declaration tag => declarationReader tag
  | .feature tag => featureReader tag
  | .extension tag => extensionReader tag
  | .blocks => blockScanner.run []
  | .block kind tag => blockReader kind tag
  | .text => textScanner.run []
  | .skipped => passOver

def onContent : ElementReader α → Content → Except ReadError α
  | .enums selection tag declarations => (enumVisitor selection tag).visit declarations
  | .groups declarations => listingVisitor.visit declarations
  | .group tag => readListing tag
  | .commands declarations => commandVisitor.visit declarations
  | .command => readCommand
  | .declaration tag => readDeclaration tag
  | .feature tag => readFeature tag
  | .extension tag => readExtension tag
  | .blocks => blockVisitor.visit []
  | .block kind tag => readBlock kind tag
  | .text => textVisitor.visit []
  | .skipped => skip

end ElementReader

end RegistryBindings.Registry
