import Mathlib.Tactic.MkIffOfInductiveProp
import RegistryBindings.Proofs.Markup.Elements
import RegistryBindings.Registry.ReadError
import RegistryBindings.Registry.Selection

/-!
# Well-formed registry documents

What must be in a document for it to be a registry, section by section, and the list of its problems in
the order in which a reader meets them. A document is well formed if the list is empty. Neither notion
speaks of what is collected.
-/

namespace RegistryBindings.Registry

open Markup

/-! ### Well-formed sections -/

def IsSection (tag : Tag) : Prop :=
  tag.name ∈ ["enums", "groups", "commands", "feature", "extension"]

instance (tag : Tag) : Decidable (IsSection tag) :=
  inferInstanceAs (Decidable (_ ∈ _))

/-- The sections in content, each with its own content: those that are opened after the first registry
element is, and not inside another section. `entered` says whether the registry element was opened
before. -/
def sections (entered : Bool) : Content → List (Tag × Content)
  | .done | .failed _ => []
  | .text _ next | .void _ next => sections entered next
  | .element tag body next =>
    if entered ∧ IsSection tag then (tag, body) :: sections true next
    else
      let inside := entered || tag.name = "registry"
      sections inside body ++ sections (inside || body.Opens "registry") next

/-- What a selection asks of a section. Only of enumerants it depends on the selection what is asked, and
features and extensions are held to it whether they are selected or not. -/
@[mk_iff]
structure WellFormed (selection : Selection) (tag : Tag) (content : Content) : Prop where
  enums : tag.name = "enums" → ∀ item ∈ content.children, item.tag.name = "enum" →
    (∀ api ∈ item.tag.value? "api", api ∈ selection.apis) → item.tag.Has "name" ∧ item.tag.Has "value"
  groups : tag.name = "groups" → ∀ listing ∈ content.children, ∀ body ∈ listing.body?,
    listing.tag.name = "group" →
      listing.tag.Has "name" ∧
        ∀ member ∈ body.children, member.tag.name = "enum" → member.tag.Has "name"
  commands : tag.name = "commands" → ∀ command ∈ content.children, ∀ body ∈ command.body?,
    command.tag.name = "command" →
      body.HasOpened "proto" ∧
        ∀ part ∈ body.children, ∀ declaration ∈ part.body?,
          part.tag.name = "proto" ∨ part.tag.name = "param" → declaration.HasOpened "name"
  feature : tag.name = "feature" → tag.Has "api" ∧ tag.Has "name"
  extension : tag.name = "extension" → tag.Has "name"
  blocks : tag.name = "feature" ∨ tag.name = "extension" →
    ∀ block ∈ content.children, ∀ body ∈ block.body?,
      block.tag.name = "require" ∨ block.tag.name = "remove" →
        ∀ item ∈ body.children, item.tag.name = "enum" ∨ item.tag.name = "command" →
          item.tag.Has "name"

/-! ### Problems in the order of reading -/

def missing (tag : Tag) (names : List String) : List ReadError :=
  (names.filter fun name => ¬ tag.Has name).map (.missingAttribute tag.name)

/-- What is wrong with a child that is known by its tag. -/
def tagProblems (names : List String) (child : Child) : List ReadError :=
  if child.tag.name ∈ names then missing child.tag ["name"] else []

/-- What is wrong with a child that counts only if it is opened. -/
def openedProblems (names : List String) (problems : Tag → Content → List ReadError) (child : Child) :
    List ReadError :=
  match child.body? with
  | some body => if child.tag.name ∈ names then problems child.tag body else []
  | none => []

def missingChild (element child : String) (content : Content) : List ReadError :=
  if content.HasOpened child then [] else [.missingElement element child]

def enumProblems (selection : Selection) (child : Child) : List ReadError :=
  if child.tag.name = "enum" ∧ ∀ api ∈ child.tag.value? "api", api ∈ selection.apis then
    missing child.tag ["name", "value"]
  else []

def listingProblems (tag : Tag) (content : Content) : List ReadError :=
  missing tag ["name"] ++ content.children.flatMap (tagProblems ["enum"])

def declarationProblems (tag : Tag) (content : Content) : List ReadError :=
  missingChild tag.name "name" content

def commandProblems (_ : Tag) (content : Content) : List ReadError :=
  content.children.flatMap (openedProblems ["proto", "param"] declarationProblems) ++
    missingChild "command" "proto" content

def blockProblems (_ : Tag) (content : Content) : List ReadError :=
  content.children.flatMap (tagProblems ["enum", "command"])

def sectionProblems (selection : Selection) (tag : Tag) (content : Content) : List ReadError :=
  match tag.name with
  | "enums" => content.children.flatMap (enumProblems selection)
  | "groups" => content.children.flatMap (openedProblems ["group"] listingProblems)
  | "commands" => content.children.flatMap (openedProblems ["command"] commandProblems)
  | "feature" =>
    missing tag ["api", "name"] ++
      content.children.flatMap (openedProblems ["require", "remove"] blockProblems)
  | "extension" =>
    missing tag ["name"] ++
      content.children.flatMap (openedProblems ["require", "remove"] blockProblems)
  | _ => []

def problems (selection : Selection) (content : Content) : List ReadError :=
  (sections false content).flatMap (fun part => sectionProblems selection part.1 part.2) ++
    if content.Opens "registry" then [] else [.noRegistryElement]

/-! ### A section without problems is well formed -/

theorem missing_cons (tag : Tag) (name : String) (names : List String) :
    missing tag (name :: names) = missing tag [name] ++ missing tag names := by
  simp only [missing, ← List.map_append, ← List.filter_append, List.cons_append, List.nil_append]

theorem missing_eq_nil_iff {tag : Tag} {names : List String} :
    missing tag names = [] ↔ ∀ name ∈ names, tag.Has name := by
  simp [missing]

theorem tagProblems_eq_nil_iff {names : List String} {child : Child} :
    tagProblems names child = [] ↔ (child.tag.name ∈ names → child.tag.Has "name") := by
  unfold tagProblems
  split
  · next h => simp [missing_eq_nil_iff, h]
  · next h => simp [h]

theorem openedProblems_eq_nil_iff {names : List String} {problems : Tag → Content → List ReadError}
    {child : Child} :
    openedProblems names problems child = [] ↔
      ∀ body ∈ child.body?, child.tag.name ∈ names → problems child.tag body = [] := by
  unfold openedProblems
  cases child.body? with
  | none => simp
  | some body =>
    by_cases h : child.tag.name ∈ names <;> simp [h]

theorem missingChild_eq_nil_iff {element child : String} {content : Content} :
    missingChild element child content = [] ↔ content.HasOpened child := by
  unfold missingChild
  split
  · next h => simp [h]
  · next h => simp [h]

theorem enumProblems_eq_nil_iff {selection : Selection} {child : Child} :
    enumProblems selection child = [] ↔
      (child.tag.name = "enum" → (∀ api ∈ child.tag.value? "api", api ∈ selection.apis) →
        child.tag.Has "name" ∧ child.tag.Has "value") := by
  unfold enumProblems
  split
  · next h =>
    rw [missing_eq_nil_iff, forall_prop_of_true h.1, forall_prop_of_true h.2]
    simp
  · next h =>
    simp only [true_iff]
    intro hname hapi
    exact absurd ⟨hname, hapi⟩ h

theorem listingProblems_eq_nil_iff {tag : Tag} {content : Content} :
    listingProblems tag content = [] ↔
      tag.Has "name" ∧ ∀ member ∈ content.children, member.tag.name = "enum" → member.tag.Has "name" := by
  simp [listingProblems, missing_eq_nil_iff, tagProblems_eq_nil_iff]

theorem commandProblems_eq_nil_iff {tag : Tag} {content : Content} :
    commandProblems tag content = [] ↔
      content.HasOpened "proto" ∧
        ∀ part ∈ content.children, ∀ declaration ∈ part.body?,
          part.tag.name = "proto" ∨ part.tag.name = "param" → declaration.HasOpened "name" := by
  simp [commandProblems, openedProblems_eq_nil_iff, declarationProblems, missingChild_eq_nil_iff,
    and_comm]

theorem blockProblems_eq_nil_iff {tag : Tag} {content : Content} :
    blockProblems tag content = [] ↔
      ∀ item ∈ content.children,
        item.tag.name = "enum" ∨ item.tag.name = "command" → item.tag.Has "name" := by
  simp [blockProblems, tagProblems_eq_nil_iff]

theorem sectionProblems_eq_nil_iff {selection : Selection} {tag : Tag} {content : Content} :
    sectionProblems selection tag content = [] ↔ WellFormed selection tag content := by
  rw [wellFormed_iff]
  unfold sectionProblems
  split
  · next h => simp [h, enumProblems_eq_nil_iff]
  · next h => simp [h, openedProblems_eq_nil_iff, listingProblems_eq_nil_iff]
  · next h => simp [h, openedProblems_eq_nil_iff, commandProblems_eq_nil_iff]
  · next h => simp [h, openedProblems_eq_nil_iff, blockProblems_eq_nil_iff, missing_eq_nil_iff]
  · next h => simp [h, openedProblems_eq_nil_iff, blockProblems_eq_nil_iff, missing_eq_nil_iff]
  · simp_all

theorem problems_eq_nil_iff {selection : Selection} {content : Content} :
    problems selection content = [] ↔
      content.Opens "registry" ∧ ∀ part ∈ sections false content, WellFormed selection part.1 part.2 := by
  unfold problems
  rw [List.append_eq_nil_iff, List.flatMap_eq_nil_iff, and_comm]
  simp only [sectionProblems_eq_nil_iff]
  split
  · next h => simp [h]
  · next h => simp [h]

end RegistryBindings.Registry
