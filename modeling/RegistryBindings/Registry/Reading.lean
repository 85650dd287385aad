import RegistryBindings.Registry.Availability
import RegistryBindings.Registry.ShortName
import RegistryBindings.Registry.Visit
import RegistryBindings.Text.Blank

/-!
# Reading a registry document

Each element that the registry gives a meaning to has one reader, which takes the element's tag and its
content. Elements that are known by their tag alone may be void. Outside the sections of the registry an
element is looked through, so that sections count wherever they stand after the registry's start tag;
inside a section an element without a meaning is skipped.
-/

namespace RegistryBindings.Registry

open Markup Text

def requiredAttribute (tag : Tag) (name : String) : Except ReadError String :=
  match tag.value? name with
  | some value => .ok value
  | none => .error (.missingAttribute tag.name name)

/-- The declaration that an `enum` tag makes, if its interface is selected. Its groups are those of the
block unless it names its own. -/
def readEnum (selection : Selection) (block tag : Tag) : Except ReadError (Option EnumDeclaration) :=
  if selection.admitsApi (tag.value? "api") then do
    let name ← requiredAttribute tag "name"
    let value ← requiredAttribute tag "value"
    return some {
      enumerant := ⟨name, shortName (block.value? "namespace") name, value⟩
      groups := ((tag.value? "group").map (listItems ',')).getD (block.value? "group").toList
      apiSpecific := (tag.value? "api").isSome }
  else return none

namespace Declarations

def addEnum? (declarations : Declarations) : Option EnumDeclaration → Declarations
  | some declaration => { declarations with enums := declarations.enums.add declaration }
  | none => declarations

def addListing (declarations : Declarations) (listing : Listing) : Declarations :=
  { declarations with listings := declarations.listings ++ [listing] }

def addCommand (declarations : Declarations) (command : Command) : Declarations :=
  { declarations with commands := declarations.commands.add command }

def addFeature (declarations : Declarations) (feature : Feature) : Declarations :=
  { declarations with features := declarations.features ++ [feature] }

def addExtension (declarations : Declarations) (extension : Extension) : Declarations :=
  { declarations with extensions := declarations.extensions ++ [extension] }

end Declarations

def enumVisitor (selection : Selection) (block : Tag) : Visitor Declarations :=
  .items fun declarations tag =>
    if tag.name = "enum" then return declarations.addEnum? (← readEnum selection block tag)
    else return declarations

def memberVisitor : Visitor (List String) :=
  .items fun members tag =>
    if tag.name = "enum" then return members ++ [← requiredAttribute tag "name"]
    else return members

def readListing (tag : Tag) (content : Content) : Except ReadError Listing := do
  let name ← requiredAttribute tag "name"
  return ⟨name, ← memberVisitor.visit [] content⟩

def listingVisitor : Visitor Declarations :=
  .sections fun
    | "group" => some fun declarations tag body => return declarations.addListing (← readListing tag body)
    | _ => none

/-- Keeps the text that stands directly in the content. -/
def textVisitor : Visitor (List Char) where
  text text characters := text ++ characters
  element text _ body := do
    skip body
    return text

structure PartialDeclaration where
  spelling : List Char := []
  name? : Option (List Char) := none

namespace PartialDeclaration

/-- Adds to the type's spelling. What follows the name is no part of it. -/
def addSpelling (declaration : PartialDeclaration) (text : List Char) : PartialDeclaration :=
  if declaration.name?.isNone then { declaration with spelling := declaration.spelling ++ text }
  else declaration

end PartialDeclaration

/-- The type is all text before the name, with the content of `ptype` set off by spaces. -/
def declarationVisitor : Visitor PartialDeclaration where
  text := PartialDeclaration.addSpelling
  element declaration child body :=
    match child.name with
    | "ptype" => return declaration.addSpelling ([' '] ++ (← textVisitor.visit [] body) ++ [' '])
    | "name" => return { declaration with name? := some (trim (← textVisitor.visit [] body)) }
    | _ => do
      skip body
      return declaration

/-- The name that a `proto` or `param` element declares, and its type, in which runs of blanks count as
one space. -/
def readDeclaration (tag : Tag) (content : Content) : Except ReadError (String × TypeRef) := do
  let declaration ← declarationVisitor.visit {} content
  match declaration.name? with
  | some name =>
    return (String.ofList name, ⟨String.ofList (collapse declaration.spelling), tag.value? "group"⟩)
  | none => throw (.missingElement tag.name "name")

structure PartialCommand where
  proto? : Option (String × TypeRef) := none
  parameters : List Parameter := []

def partVisitor : Visitor PartialCommand :=
  .sections fun
    | "proto" => some fun command tag body =>
      return { command with proto? := some (← readDeclaration tag body) }
    | "param" => some fun command tag body => do
      let (name, type) ← readDeclaration tag body
      return { command with parameters := command.parameters ++ [⟨name, type⟩] }
    | _ => none

def readCommand (content : Content) : Except ReadError Command := do
  let command ← partVisitor.visit {} content
  match command.proto? with
  | some (name, type) => return ⟨name, type, command.parameters⟩
  | none => throw (.missingElement "command" "proto")

def commandVisitor : Visitor Declarations :=
  .sections fun
    | "command" => some fun declarations _ body => return declarations.addCommand (← readCommand body)
    | _ => none

def itemVisitor : Visitor InterfaceBlock :=
  .items fun block item =>
    match item.name with
    | "enum" => return { block with enums := block.enums ++ [← requiredAttribute item "name"] }
    | "command" => return { block with commands := block.commands ++ [← requiredAttribute item "name"] }
    | _ => return block

def readBlock (kind : BlockKind) (tag : Tag) (content : Content) : Except ReadError InterfaceBlock :=
  itemVisitor.visit { kind, profile? := tag.value? "profile", api? := tag.value? "api" } content

def blockVisitor : Visitor (List InterfaceBlock) :=
  .sections fun
    | "require" => some fun blocks tag body => return blocks ++ [← readBlock .require tag body]
    | "remove" => some fun blocks tag body => return blocks ++ [← readBlock .remove tag body]
    | _ => none

def readFeature (tag : Tag) (content : Content) : Except ReadError Feature := do
  let api ← requiredAttribute tag "api"
  let name ← requiredAttribute tag "name"
  return ⟨api, name, (tag.value? "number").getD "", ← blockVisitor.visit [] content⟩

def readExtension (tag : Tag) (content : Content) : Except ReadError Extension := do
  let name ← requiredAttribute tag "name"
  return ⟨name, ((tag.value? "supported").map (listItems '|')).getD [], ← blockVisitor.visit [] content⟩

def readSection? (selection : Selection) (declarations : Declarations) (tag : Tag) (content : Content) :
    Option (Except ReadError Declarations) :=
  match tag.name with
  | "enums" => some ((enumVisitor selection tag).visit declarations content)
  | "groups" => some (listingVisitor.visit declarations content)
  | "commands" => some (commandVisitor.visit declarations content)
  | "feature" => some do return declarations.addFeature (← readFeature tag content)
  | "extension" => some do return declarations.addExtension (← readExtension tag content)
  | _ => none

/-- Goes through content outside the sections. The declarations are there from the registry's start tag
on, and before it no section counts. -/
def readOutside (selection : Selection) (declarations? : Option Declarations) :
    Content → Except ReadError (Option Declarations)
  | .done => .ok declarations?
  | .failed fault => .error (.markup fault)
  | .text _ next | .void _ next => readOutside selection declarations? next
  | .element tag body next =>
    match declarations?.bind fun declarations => readSection? selection declarations tag body with
    | some result => do
      let declarations ← result
      readOutside selection (some declarations) next
    | none => do
      let entered? := if tag.name = "registry" then some (declarations?.getD {}) else declarations?
      let declarations? ← readOutside selection entered? body
      readOutside selection declarations? next

def readDeclarations (selection : Selection) (content : Content) : Except ReadError Declarations := do
  match ← readOutside selection none content with
  | some declarations => return declarations
  | none => throw .noRegistryElement

/-- The registry that a selection makes of a document. -/
def read (text : String) (selection : Selection) : Except ReadError Registry := do
  let declarations ← readDeclarations selection (Content.ofText text)
  return declarations.registry selection

end RegistryBindings.Registry
