import Mathlib.Data.List.Basic
import Mathlib.Data.List.DropRight
import RegistryBindings.Proofs.Markup.Writing
import RegistryBindings.Proofs.Registry.Catalog
import RegistryBindings.Proofs.Registry.ShortName
import RegistryBindings.Proofs.Text.Words
import RegistryBindings.Registry.Reading

/-!
# Registry documents

A document as its author thinks of it: a sequence of sections, each with the items it is made of.
`Document.render` writes it as markup and `Document.declarations` says what it declares to a selection: a type by
the words in front of its name, the names in a list by what stands between its separators. That reading what was
written gives those declarations is the subject of the module after this one.

All texts of a document are plain, and the names of commands and parameters have no blank at their ends;
both are part of their types.
-/

namespace RegistryBindings.Registry

open Markup Text

/-- A text without characters that mean something in markup. -/
structure PlainText where
  text : String
  plain : ∀ c ∈ text.toList, isPlain c = true

structure DeclaredName extends PlainText where
  trimmed : IsTrimmed text.toList

namespace PlainText

def joined (parts : List PlainText) : PlainText where
  text := String.ofList (['|'].intercalate (parts.map (·.text.toList)))
  plain := by
    rw [String.toList_ofList]
    induction parts with
    | nil => simp
    | cons part parts ih =>
      cases parts with
      | nil => simpa using part.plain
      | cons next parts =>
        intro c hc
        rw [List.map_cons, List.map_cons, List.intercalate_cons_cons, List.append_assoc,
          List.mem_append, List.mem_append, List.mem_singleton] at hc
        rcases hc with hc | rfl | hc
        · exact part.plain c hc
        · decide
        · exact ih c hc

end PlainText

namespace Document

/-- A tag with those of the attributes that have a value. -/
def tag (name : String) (attributes : List (String × Option PlainText)) : Tag where
  name := name
  attributes := attributes.filterMap fun (key, value?) => value?.map fun value => ⟨key, value.text⟩

def voids (tags : List Tag) : Content :=
  tags.foldr .void .done

def elements (children : List (Tag × Content)) : Content :=
  children.foldr (fun (tag, body) next => .element tag body next) .done

def registryElement (sections : List (Tag × Content)) : Content :=
  .element ⟨"registry", []⟩ (elements sections) .done

/-- Puts characters in front of content. Texts that meet are one text, and no text is empty. -/
def withText (characters : List Char) (content : Content) : Content :=
  match characters, content with
  | [], content => content
  | characters, .text more next => .text (characters ++ more) next
  | characters, content => .text characters content

def plainText (text : String) (h : text.toList.all isPlain = true) : PlainText :=
  ⟨text, List.all_eq_true.mp h⟩

/-! ### What a document is made of, and how it is written -/

structure EnumItem where
  name : PlainText
  value : PlainText
  api? : Option PlainText := none
  group? : Option PlainText := none

structure ListingItem where
  name : PlainText
  members : List PlainText

structure Declarator where
  group? : Option PlainText := none
  before : PlainText
  ptype? : Option PlainText := none
  after : PlainText
  name : DeclaredName

structure CommandItem where
  proto : Declarator
  parameters : List Declarator

inductive BlockItem where
  | enum (name : PlainText)
  | command (name : PlainText)

structure Block where
  kind : BlockKind
  profile? : Option PlainText := none
  api? : Option PlainText := none
  items : List BlockItem

inductive Section where
  | enums (space? group? : Option PlainText) (items : List EnumItem)
  | groups (listings : List ListingItem)
  | commands (items : List CommandItem)
  | feature (api name number : PlainText) (blocks : List Block)
  | extension (name : PlainText) (supported : List PlainText) (blocks : List Block)

def EnumItem.tag (item : EnumItem) : Tag :=
  Document.tag "enum"
    [("name", some item.name), ("value", some item.value), ("api", item.api?), ("group", item.group?)]

def ListingItem.element (item : ListingItem) : Tag × Content :=
  (Document.tag "group" [("name", some item.name)],
    voids (item.members.map fun member => Document.tag "enum" [("name", some member)]))

def Declarator.content (declarator : Declarator) : Content :=
  let name := Content.element (Document.tag "name" [])
    (withText declarator.name.text.toList .done) .done
  withText declarator.before.text.toList <|
    match declarator.ptype? with
    | none => withText declarator.after.text.toList name
    | some ptype =>
      .element (Document.tag "ptype" []) (withText ptype.text.toList .done)
        (withText declarator.after.text.toList name)

def Declarator.element (name : String) (declarator : Declarator) : Tag × Content :=
  (Document.tag name [("group", declarator.group?)], declarator.content)

def CommandItem.element (item : CommandItem) : Tag × Content :=
  (Document.tag "command" [],
    elements (item.proto.element "proto" :: item.parameters.map (Declarator.element "param")))

def BlockItem.tag : BlockItem → Tag
  | enum name => Document.tag "enum" [("name", some name)]
  | command name => Document.tag "command" [("name", some name)]

def Block.element (block : Block) : Tag × Content :=
  (Document.tag (match block.kind with | .require => "require" | .remove => "remove")
      [("profile", block.profile?), ("api", block.api?)],
    voids (block.items.map BlockItem.tag))

def Section.element : Section → Tag × Content
  | enums space? group? items =>
    (Document.tag "enums" [("namespace", space?), ("group", group?)],
      voids (items.map EnumItem.tag))
  | groups listings => (Document.tag "groups" [], elements (listings.map ListingItem.element))
  | commands items => (Document.tag "commands" [], elements (items.map CommandItem.element))
  | feature api name number blocks =>
    (Document.tag "feature" [("api", some api), ("name", some name), ("number", some number)],
      elements (blocks.map Block.element))
  | extension name supported blocks =>
    (Document.tag "extension" [("name", some name), ("supported", some (PlainText.joined supported))],
      elements (blocks.map Block.element))

end Document

structure Document where
  sections : List Document.Section

namespace Document

def content (document : Document) : Content :=
  .element (tag "registry" []) (elements (document.sections.map Section.element)) .done

def render (document : Document) : String :=
  String.ofList document.content.write

/-! ### What a document declares -/

/-- The names in a list are what stands between its separators, without blanks around it, where anything is left. -/
def namesIn (separator : Char) (list : PlainText) : List String :=
  (((list.text.toList.splitOn separator).map fun piece => (piece.dropWhile isBlank).rdropWhile isBlank).filter
    (· ≠ [])).map String.ofList

theorem listItems_text (separator : Char) (list : PlainText) :
    listItems separator list.text = namesIn separator list :=
  listItems_eq_splitOn separator list.text

def EnumItem.declaration? (selection : Selection) (space? group? : Option PlainText)
    (item : EnumItem) : Option EnumDeclaration :=
  if ∀ api ∈ item.api?, api.text ∈ selection.apis then
    some {
      enumerant :=
        ⟨item.name.text, firstRest (space?.map (·.text)) item.name.text, item.value.text⟩
      groups :=
        match item.group? with
        | some group => namesIn ',' group
        | none => (group?.map (·.text)).toList
      apiSpecific := item.api?.isSome }
  else none

def ListingItem.listing (item : ListingItem) : Listing :=
  ⟨item.name.text, item.members.map (·.text)⟩

/-- The texts in front of the name. Two that no `ptype` parts are one. -/
def Declarator.texts (declarator : Declarator) : List (List Char) :=
  match declarator.ptype? with
  | none => [declarator.before.text.toList ++ declarator.after.text.toList]
  | some ptype => [declarator.before.text.toList, ptype.text.toList, declarator.after.text.toList]

/-- Their words are what stands between blanks. -/
def Declarator.words (declarator : Declarator) : List (List Char) :=
  declarator.texts.flatMap fun text => (text.splitOnP isBlank).filter (· ≠ [])

def Declarator.type (declarator : Declarator) : TypeRef where
  spelling := String.ofList ([' '].intercalate declarator.words)
  group? := declarator.group?.map (·.text)

def Declarator.parameter (declarator : Declarator) : Parameter :=
  ⟨declarator.name.text, declarator.type⟩

def CommandItem.command (item : CommandItem) : Command where
  name := item.proto.name.text
  returnType := item.proto.type
  parameters := item.parameters.map Declarator.parameter

def BlockItem.enum? : BlockItem → Option String
  | enum name => some name.text
  | command _ => none

def BlockItem.command? : BlockItem → Option String
  | enum _ => none
  | command name => some name.text

def Block.interfaceBlock (block : Block) : InterfaceBlock where
  kind := block.kind
  profile? := block.profile?.map (·.text)
  api? := block.api?.map (·.text)
  enums := block.items.filterMap BlockItem.enum?
  commands := block.items.filterMap BlockItem.command?

namespace Section

@[simp]
def enumDeclarations (selection : Selection) : Section → List EnumDeclaration
  | enums space? group? items =>
    items.filterMap fun item => item.declaration? selection space? group?
  | _ => []

@[simp]
def listings : Section → List Listing
  | groups listings => listings.map ListingItem.listing
  | _ => []

@[simp]
def commandDeclarations : Section → List Command
  | commands items => items.map CommandItem.command
  | _ => []

@[simp]
def features : Section → List Feature
  | feature api name number blocks => [⟨api.text, name.text, number.text, blocks.map Block.interfaceBlock⟩]
  | _ => []

/-- A name that is written into the list of supported interfaces is read as the list it may be. -/
@[simp]
def extensions : Section → List Extension
  | extension name supported blocks =>
    [⟨name.text, supported.flatMap (namesIn '|'), blocks.map Block.interfaceBlock⟩]
  | _ => []

def supported : Section → List PlainText
  | extension _ supported _ => supported
  | _ => []

def givenExtensions : Section → List Extension
  | extension name supported blocks =>
    [⟨name.text, supported.map (·.text), blocks.map Block.interfaceBlock⟩]
  | _ => []

theorem extensions_of_isItem {part : Section} (h : ∀ api ∈ part.supported, IsItem '|' api.text) :
    part.extensions = part.givenExtensions := by
  cases part with
  | extension name supported blocks =>
    have hsupported : supported.flatMap (namesIn '|') = supported.map (·.text) := by
      rw [List.map_eq_flatMap]
      exact List.flatMap_congr fun api hapi => (listItems_text '|' api).symm.trans (listItems_of_isItem (h api hapi))
    rw [extensions, hsupported, givenExtensions]
  | enums space? group? items => rfl
  | groups listings => rfl
  | commands items => rfl
  | feature api name number blocks => rfl

end Section

variable (document : Document) (selection : Selection)

def enumDeclarations : List EnumDeclaration :=
  document.sections.flatMap (·.enumDeclarations selection)

def commandDeclarations : List Command :=
  document.sections.flatMap (·.commandDeclarations)

/-- What a reader collects from the document. A name that is declared more than once stands where it is
declared first. -/
structure Collects (declarations : Declarations) : Prop where
  features_eq : declarations.features = document.sections.flatMap (·.features)
  extensions_eq : declarations.extensions = document.sections.flatMap (·.extensions)
  /-- Interfaces whose names are no lists themselves are supported as they are given. -/
  extensions_of_isItem : (∀ part ∈ document.sections, ∀ api ∈ part.supported, IsItem '|' api.text) →
    declarations.extensions = document.sections.flatMap (·.givenExtensions)
  listings_eq : declarations.listings = document.sections.flatMap (·.listings)
  enum_names : declarations.enums.toList.map (·.enumerant.name) =
    ((document.enumDeclarations selection).map (·.enumerant.name)).eraseDups
  find?_enum : ∀ name, declarations.enums.find? name =
    lastDeclaration? (document.enumDeclarations selection) name
  command_names : declarations.commands.toList.map (·.name) =
    (document.commandDeclarations.map (·.name)).eraseDups
  find?_command : ∀ name, declarations.commands.find? name =
    lastCommand? document.commandDeclarations name

def declarations : Declarations where
  enums := Catalog.ofList (document.enumDeclarations selection)
  listings := document.sections.flatMap (·.listings)
  commands := Catalog.ofList document.commandDeclarations
  features := document.sections.flatMap (·.features)
  extensions := document.sections.flatMap (·.extensions)

theorem collects_declarations : document.Collects selection (document.declarations selection) where
  features_eq := rfl
  extensions_eq := rfl
  extensions_of_isItem h := List.flatMap_congr fun part hpart => Section.extensions_of_isItem (h part hpart)
  listings_eq := rfl
  enum_names := Catalog.names_ofList _
  find?_enum := find?_ofList_enum _
  command_names := Catalog.names_ofList _
  find?_command := find?_ofList_command _

end Document

end RegistryBindings.Registry
