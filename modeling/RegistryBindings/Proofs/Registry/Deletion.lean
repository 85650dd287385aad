import RegistryBindings.Proofs.Registry.Collecting
import RegistryBindings.Proofs.Registry.Document
import RegistryBindings.Proofs.Registry.Pruning

/-!
# Leaving out parts of a document

Idle declarations come from idle elements, and deleting those is what an author can do. This module says
which elements are idle, by the declarations of the whole document, and what is left of a section when some
of them are deleted. A section that stays keeps its tag, and so does a block or listing. `read_of_pruned`
says that a document that is accepted gives its registry without its idle elements too, whichever of them
are deleted: what is left is well formed, and what it declares is pruned as `Declarations.PrunedTo` asks.
-/

namespace RegistryBindings.Registry

open Markup Text

namespace Declarations

variable (declarations : Declarations) (selection : Selection)

/-! ### Idle elements -/

/-- A feature of an interface that is not selected, or an extension that is not asked for or that no
selected interface may use. -/
def IdlePart (part : Part) : Prop :=
  (part.1.name = "feature" ∧ ∃ api ∈ part.1.value? "api", api ∉ selection.apis) ∨
    part.1.name = "extension" ∧
      ¬ ((∃ name ∈ part.1.value? "name", name ∈ selection.extensions) ∧
        ∃ supported ∈ part.1.value? "supported", ∃ api ∈ listItems '|' supported, api ∈ selection.apis)

/-- A block for another profile, or for an interface that is not selected. -/
def IdleBlock (child : Child) : Prop :=
  (child.tag.name = "require" ∨ child.tag.name = "remove") ∧
    ((∃ profile ∈ child.tag.value? "profile", selection.profile? ≠ some profile) ∨
      ∃ api ∈ child.tag.value? "api", api ∉ selection.apis)

/-- An enumerant of an interface that is not selected, or one that no applicable block requires. -/
def IdleEnum (child : Child) : Prop :=
  child.tag.name = "enum" ∧
    ((∃ api ∈ child.tag.value? "api", api ∉ selection.apis) ∨
      ∀ name ∈ child.tag.value? "name", ¬ declarations.Named selection (·.enums) name)

def IdleCommand (child : Child) : Prop :=
  child.tag.name = "command" ∧
    ∀ body ∈ child.body?, ∀ command, readCommand body = .ok command →
      ¬ declarations.Named selection (·.commands) command.name

structure Dangling (child : Child) : Prop where
  isMention : child.tag.name = "enum" ∨ child.tag.name = "command"
  enum : ∀ name ∈ itemName? "enum" child, declarations.enums.find? name = none
  command : ∀ name ∈ itemName? "command" child, declarations.commands.find? name = none

/-! ### What is left of a section -/

/-- A block or listing, without some of the names that are not declared. -/
structure KeptChild (child other : Child) : Prop where
  tag_eq : child.tag = other.tag
  body : Option.Rel (fun body rest => Pruned declarations.Dangling Eq body.children rest.children)
    child.body? other.body?

structure KeptPart (part other : Part) : Prop where
  tag_eq : part.1 = other.1
  enums : part.1.name = "enums" →
    Pruned (declarations.IdleEnum selection) Eq part.2.children other.2.children
  groups : part.1.name = "groups" →
    List.Forall₂ declarations.KeptChild part.2.children other.2.children
  commands : part.1.name = "commands" →
    Pruned (declarations.IdleCommand selection) Eq part.2.children other.2.children
  feature : part.1.name = "feature" →
    Pruned (IdleBlock selection) declarations.KeptChild part.2.children other.2.children
  extension : part.1.name = "extension" →
    Pruned (fun child => child.tag.name = "remove" ∨ IdleBlock selection child) declarations.KeptChild
      part.2.children other.2.children

variable {declarations selection}

/-! ### What is declared without the idle elements -/

theorem KeptChild.declaredListing? {child other : Child} (h : declarations.KeptChild child other) :
    Option.Rel declarations.KeptListing (declaredListing? child) (declaredListing? other) := by
  obtain ⟨tag, body?⟩ := child
  obtain ⟨tag', rest?⟩ := other
  obtain rfl : tag = tag' := h.tag_eq
  cases h.body with
  | none => exact .none
  | @some body rest hbody =>
    have hname : itemName? "group" ⟨tag, some rest⟩ = itemName? "group" ⟨tag, some body⟩ := rfl
    simp only [Registry.declaredListing?, Option.bind_some, hname]
    cases itemName? "group" ⟨tag, some body⟩ with
    | none => exact .none
    | some name => exact .some ⟨rfl, hbody.filterMap_eq fun child hidle => hidle.enum⟩

theorem KeptChild.declaredBlock? {child other : Child} (h : declarations.KeptChild child other) :
    Option.Rel declarations.KeptBlock (declaredBlock? child) (declaredBlock? other) := by
  obtain ⟨tag, body?⟩ := child
  obtain ⟨tag', rest?⟩ := other
  obtain rfl : tag = tag' := h.tag_eq
  cases h.body with
  | none => exact .none
  | some hbody =>
    simp only [Registry.declaredBlock?, Option.bind_some]
    cases blockKind? tag.name with
    | none => exact .none
    | some kind =>
      exact .some ⟨rfl, rfl, rfl, hbody.filterMap_eq fun child hidle => hidle.enum,
        hbody.filterMap_eq fun child hidle => hidle.command⟩

theorem IdleBlock.not_applicable {child : Child} (h : IdleBlock selection child) {block : InterfaceBlock}
    (hblock : block ∈ Registry.declaredBlock? child) : ¬ block.Applicable selection := by
  obtain ⟨body, -, hbody⟩ := Option.bind_eq_some_iff.mp hblock
  obtain ⟨kind, -, rfl⟩ := Option.map_eq_some_iff.mp hbody
  rintro ⟨hprofile, hapi⟩
  rcases h.2 with ⟨profile, hmem, hother⟩ | ⟨api, hmem, hother⟩
  · exact hother (hprofile profile hmem)
  · exact hother (hapi api hmem)

theorem IdleEnum.not_named {child : Child} (h : declarations.IdleEnum selection child) {block : Tag}
    {declaration : EnumDeclaration} (hdeclared : declaration ∈ declaredEnum? selection block child) :
    ¬ declarations.Named selection (·.enums) declaration.enumerant.name := by
  unfold declaredEnum? at hdeclared
  rw [if_pos h.1, readEnum] at hdeclared
  split at hdeclared
  · next hadmitted =>
    cases hname : requiredAttribute child.tag "name" with
    | error error =>
      rw [hname] at hdeclared
      cases hdeclared
    | ok name =>
      cases hvalue : requiredAttribute child.tag "value" with
      | error error =>
        rw [hname, hvalue] at hdeclared
        cases hdeclared
      | ok value =>
        rw [hname, hvalue] at hdeclared
        cases hdeclared
        rcases h.2 with ⟨api, hmem, hother⟩ | hnamed
        · exact absurd (Selection.admitsApi_iff.mp hadmitted api hmem) hother
        · exact hnamed name (value?_of_requiredAttribute hname)
  · cases hdeclared

theorem IdleCommand.not_named {child : Child} (h : declarations.IdleCommand selection child)
    {command : Command} (hdeclared : command ∈ declaredCommand? child) :
    ¬ declarations.Named selection (·.commands) command.name := by
  obtain ⟨body, hbody, hread⟩ := Option.bind_eq_some_iff.mp hdeclared
  rw [if_pos h.1] at hread
  cases hresult : readCommand body with
  | error error =>
    rw [hresult] at hread
    cases hread
  | ok found =>
    rw [hresult] at hread
    cases hread
    exact h.2 body hbody command hresult

theorem pruned_ofKind {α : Type} {Idle : α → Prop} {Kept : α → α → Prop} {kind : String}
    {declared : Part → List α}
    (hidle : ∀ part, IdlePart selection part → part.1.name = kind → Pruned Idle Kept (declared part) [])
    (hkept : ∀ tag body rest, declarations.KeptPart selection (tag, body) (tag, rest) → tag.name = kind →
      Pruned Idle Kept (declared (tag, body)) (declared (tag, rest)))
    {parts others : List Part}
    (h : Pruned (IdlePart selection) (declarations.KeptPart selection) parts others) :
    Pruned Idle Kept (parts.flatMap (Part.ofKind kind declared))
      (others.flatMap (Part.ofKind kind declared)) := by
  refine h.flatMap (fun part hpart => ?_) ?_
  · rw [Part.ofKind]
    split
    · next hname => exact hidle part hpart hname
    · exact .nil
  · rintro ⟨tag, body⟩ ⟨tag', rest⟩ hpart
    obtain rfl : tag = tag' := hpart.tag_eq
    simp only [Part.ofKind]
    split
    · next hname => exact hkept tag body rest hpart hname
    · exact .nil

/-- Only features and extensions are idle as a whole. -/
theorem IdlePart.name_ne {part : Part} (h : IdlePart selection part) {kind : String}
    (hkind : kind ≠ "feature" ∧ kind ≠ "extension") : part.1.name ≠ kind := by
  rintro rfl
  rcases h with ⟨hname, -⟩ | ⟨hname, -⟩
  · exact hkind.1 hname
  · exact hkind.2 hname

theorem pruned_features {parts others : List Part}
    (h : Pruned (IdlePart selection) (declarations.KeptPart selection) parts others) :
    Pruned (fun feature => feature.api ∉ selection.apis) (declarations.KeptFeature selection)
      (parts.flatMap Part.features) (others.flatMap Part.features) := by
  refine pruned_ofKind (fun part hpart hname => ?_) (fun tag body rest hpart hname => ?_) h
  · have hapi : ∃ api ∈ part.1.value? "api", api ∉ selection.apis := by
      simpa [IdlePart, hname] using hpart
    obtain ⟨api, hmem, hunselected⟩ := hapi
    rw [hmem, Option.bind_some]
    cases part.1.value? "name" with
    | none => exact .nil
    | some name => exact .leave hunselected .nil
  · have hblocks : Pruned (fun block : InterfaceBlock => ¬ block.Applicable selection)
        declarations.KeptBlock (body.children.filterMap Registry.declaredBlock?)
          (rest.children.filterMap Registry.declaredBlock?) :=
      (hpart.feature hname).filterMap (fun child hidle block => hidle.not_applicable)
        fun child other => KeptChild.declaredBlock?
    dsimp only
    cases tag.value? "api" with
    | none => exact .nil
    | some api =>
      cases tag.value? "name" with
      | none => exact .nil
      | some name => exact .keep ⟨rfl, rfl, rfl, hblocks⟩ .nil

theorem pruned_extensions {parts others : List Part}
    (h : Pruned (IdlePart selection) (declarations.KeptPart selection) parts others) :
    Pruned (fun extension => extension.isSelected selection = false) (declarations.KeptExtension selection)
      (parts.flatMap Part.extensions) (others.flatMap Part.extensions) := by
  refine pruned_ofKind (fun part hpart hname => ?_) (fun tag body rest hpart hname => ?_) h
  · have hselected : ¬ ((∃ name ∈ part.1.value? "name", name ∈ selection.extensions) ∧
        ∃ supported ∈ part.1.value? "supported", ∃ api ∈ listItems '|' supported, api ∈ selection.apis) := by
      simpa [IdlePart, hname] using hpart
    cases hextension : part.1.value? "name" with
    | none => exact .nil
    | some name =>
      refine .leave (Bool.eq_false_iff.mpr fun hwanted => hselected ?_) .nil
      rw [Extension.isSelected, Bool.and_eq_true, List.any_eq_true] at hwanted
      obtain ⟨hincluded, api, hapi, hselectedApi⟩ := hwanted
      refine ⟨⟨name, hextension, List.contains_iff_mem.mp hincluded⟩, ?_⟩
      cases hsupported : part.1.value? "supported" with
      | none => simp [hsupported] at hapi
      | some supported =>
        rw [hsupported] at hapi
        exact ⟨supported, rfl, api, hapi, List.contains_iff_mem.mp hselectedApi⟩
  · have hblocks : Pruned
        (fun block : InterfaceBlock => block.kind = .remove ∨ ¬ block.Applicable selection)
        declarations.KeptBlock (body.children.filterMap Registry.declaredBlock?)
          (rest.children.filterMap Registry.declaredBlock?) := by
      refine (hpart.extension hname).filterMap ?_ fun child other => KeptChild.declaredBlock?
      rintro child (hremove | hidle) block hblock
      · obtain ⟨_, -, hkind⟩ := Option.bind_eq_some_iff.mp hblock
        rw [hremove] at hkind
        exact .inl (congrArg InterfaceBlock.kind (Option.some.inj hkind)).symm
      · exact .inr (hidle.not_applicable hblock)
    dsimp only
    cases tag.value? "name" with
    | none => exact .nil
    | some name => exact .keep ⟨rfl, rfl, hblocks⟩ .nil

/-- What a document declares that has some of its idle elements deleted. -/
theorem prunedTo_declarationsOf {parts others : List Part}
    (h : Pruned (IdlePart selection) (KeptPart (declarationsOf selection parts) selection) parts others) :
    (declarationsOf selection parts).PrunedTo selection (declarationsOf selection others) where
  enums := by
    refine ⟨parts.flatMap (Part.enums selection), others.flatMap (Part.enums selection), rfl, rfl, ?_⟩
    refine pruned_ofKind (fun part hpart hname => ?_) (fun tag body rest hpart hname => ?_) h
    · exact absurd hname (hpart.name_ne (by decide))
    · exact (hpart.enums hname).filterMap_eq fun child hidle declaration => hidle.not_named
  listings := by
    refine pruned_ofKind (fun part hpart hname => ?_) (fun tag body rest hpart hname => ?_) h
    · exact absurd hname (hpart.name_ne (by decide))
    · have hlistings : Pruned (fun _ => False) (KeptChild (declarationsOf selection parts))
          body.children rest.children := .of_forall₂ (hpart.groups hname)
      exact hlistings.filterMap (fun child hidle => hidle.elim) fun child other => KeptChild.declaredListing?
  commands := by
    refine ⟨parts.flatMap Part.commands, others.flatMap Part.commands, rfl, rfl, ?_⟩
    refine pruned_ofKind (fun part hpart hname => ?_) (fun tag body rest hpart hname => ?_) h
    · exact absurd hname (hpart.name_ne (by decide))
    · exact (hpart.commands hname).filterMap_eq fun child hidle command => hidle.not_named
  features := pruned_features h
  extensions := pruned_extensions h

/-! ### What is left is well formed -/

theorem KeptChild.exists_body {child other : Child} (h : declarations.KeptChild child other) {rest : Content}
    (hrest : rest ∈ other.body?) :
    ∃ body ∈ child.body?, ∀ item ∈ rest.children, item ∈ body.children := by
  have hbody := h.body
  rw [Option.mem_def.mp hrest] at hbody
  generalize child.body? = body? at hbody
  cases hbody with
  | @some body _ hpruned =>
    refine ⟨body, rfl, fun item hitem => ?_⟩
    obtain ⟨original, horiginal, rfl⟩ := hpruned.exists_of_mem hitem
    exact horiginal

theorem KeptPart.wellFormed {part other : Part} (h : declarations.KeptPart selection part other)
    (hpart : WellFormed selection part.1 part.2) : WellFormed selection other.1 other.2 := by
  obtain ⟨tag, content⟩ := part
  obtain ⟨tag', rest⟩ := other
  obtain rfl : tag = tag' := h.tag_eq
  refine ⟨fun hname item hitem => ?_, fun hname listing hlisting body hbody hgroup => ?_,
    fun hname command hcommand => ?_, hpart.feature, hpart.extension,
    fun hname block hblock body hbody hkind item hitem => ?_⟩
  · obtain ⟨original, horiginal, rfl⟩ := (h.enums hname).exists_of_mem hitem
    exact hpart.enums hname original horiginal
  · have hlistings : Pruned (fun _ => False) declarations.KeptChild content.children rest.children :=
      .of_forall₂ (h.groups hname)
    obtain ⟨original, horiginal, hkept⟩ := hlistings.exists_of_mem hlisting
    obtain ⟨whole, hwhole, hitems⟩ := hkept.exists_body hbody
    rw [← hkept.tag_eq] at hgroup ⊢
    obtain ⟨hlistingName, hmembers⟩ := hpart.groups hname original horiginal whole hwhole hgroup
    exact ⟨hlistingName, fun member hmember => hmembers member (hitems member hmember)⟩
  · obtain ⟨original, horiginal, rfl⟩ := (h.commands hname).exists_of_mem hcommand
    exact hpart.commands hname original horiginal
  · obtain ⟨original, horiginal, hkept⟩ : ∃ original ∈ content.children,
        declarations.KeptChild original block := by
      rcases hname with hname | hname
      · exact (h.feature hname).exists_of_mem hblock
      · exact (h.extension hname).exists_of_mem hblock
    obtain ⟨whole, hwhole, hitems⟩ := hkept.exists_body hbody
    rw [← hkept.tag_eq] at hkind
    exact hpart.blocks hname original horiginal whole hwhole hkind item (hitems item hitem)

end Declarations

/-- An accepted document gives the same registry with idle elements deleted, whichever they are. -/
theorem read_of_pruned {text pruned : String} {selection : Selection} {declarations : Declarations}
    (hmarkup : (Events.ofText pruned).fault? = none) (hroot : (Content.ofText pruned).Opens "registry")
    (hread : readDeclarations selection (Content.ofText text) = .ok declarations)
    (hpruned : Pruned (Declarations.IdlePart selection) (declarations.KeptPart selection)
      (sections false (Content.ofText text)) (sections false (Content.ofText pruned))) :
    read text selection = .ok (declarations.registry selection) ∧
      read pruned selection = .ok (declarations.registry selection) := by
  obtain ⟨-, -, hwellFormed, rfl⟩ := readDeclarations_eq_ok_iff.mp hread
  have hleft : readDeclarations selection (Content.ofText pruned) =
      .ok (declarationsOf selection (sections false (Content.ofText pruned))) := by
    refine readDeclarations_eq_ok_iff.mpr
      ⟨Content.fault?_ofText hmarkup, hroot, fun part hpart => ?_, rfl⟩
    obtain ⟨original, horiginal, hkept⟩ := hpruned.exists_of_mem hpart
    exact hkept.wellFormed (hwellFormed original horiginal)
  constructor
  · rw [read, hread]
    rfl
  · rw [read, hleft, (Declarations.prunedTo_declarationsOf hpruned).registry_eq]
    rfl

/-! ### One document with idle elements of each sort -/

def idleSelection : Selection where
  extensions := ["GL_EXT"]

def fullParts : List Part := [
  (⟨"enums", []⟩, Document.voids [
    ⟨"enum", [⟨"name", "GL_USED"⟩, ⟨"value", "1"⟩]⟩,
    ⟨"enum", [⟨"name", "GL_UNUSED"⟩, ⟨"value", "2"⟩]⟩,
    ⟨"enum", [⟨"name", "GL_USED"⟩, ⟨"value", "3"⟩, ⟨"api", "gles2"⟩]⟩]),
  (⟨"groups", []⟩, Document.elements [
    (⟨"group", [⟨"name", "Mask"⟩]⟩, Document.voids [
      ⟨"enum", [⟨"name", "GL_GONE"⟩]⟩,
      ⟨"enum", [⟨"name", "GL_USED"⟩]⟩])]),
  (⟨"commands", []⟩, Document.elements [
    (⟨"command", []⟩, Document.elements [
      (⟨"proto", []⟩, .element ⟨"name", []⟩ (.text "glUnused".toList .done) .done)])]),
  (⟨"feature", [⟨"api", "gl"⟩, ⟨"name", "GL_VERSION_1_0"⟩]⟩, Document.elements [
    (⟨"require", []⟩, Document.voids [
      ⟨"enum", [⟨"name", "GL_USED"⟩]⟩,
      ⟨"command", [⟨"name", "glGone"⟩]⟩]),
    (⟨"remove", [⟨"profile", "core"⟩]⟩, Document.voids [⟨"enum", [⟨"name", "GL_USED"⟩]⟩])]),
  (⟨"feature", [⟨"api", "gles2"⟩, ⟨"name", "GL_ES_VERSION_2_0"⟩]⟩, Document.elements [
    (⟨"require", []⟩, Document.voids [⟨"enum", [⟨"name", "GL_UNUSED"⟩]⟩])]),
  (⟨"extension", [⟨"name", "GL_EXT"⟩, ⟨"supported", "gl"⟩]⟩, Document.elements [
    (⟨"remove", []⟩, Document.voids [⟨"enum", [⟨"name", "GL_USED"⟩]⟩])]),
  (⟨"extension", [⟨"name", "GL_OTHER"⟩, ⟨"supported", "gl"⟩]⟩, Document.elements [
    (⟨"require", []⟩, Document.voids [⟨"command", [⟨"name", "glUnused"⟩]⟩])])]

def prunedParts : List Part := [
  (⟨"enums", []⟩, Document.voids [⟨"enum", [⟨"name", "GL_USED"⟩, ⟨"value", "1"⟩]⟩]),
  (⟨"groups", []⟩, Document.elements [
    (⟨"group", [⟨"name", "Mask"⟩]⟩, Document.voids [⟨"enum", [⟨"name", "GL_USED"⟩]⟩])]),
  (⟨"commands", []⟩, .done),
  (⟨"feature", [⟨"api", "gl"⟩, ⟨"name", "GL_VERSION_1_0"⟩]⟩, Document.elements [
    (⟨"require", []⟩, Document.voids [⟨"enum", [⟨"name", "GL_USED"⟩]⟩])]),
  (⟨"extension", [⟨"name", "GL_EXT"⟩, ⟨"supported", "gl"⟩]⟩, .done)]

theorem pruned_fullParts :
    Pruned (Declarations.IdlePart idleSelection)
      ((declarationsOf idleSelection fullParts).KeptPart idleSelection) fullParts prunedParts := by
  let declarations := declarationsOf idleSelection fullParts
  have henum : declarations.IdleEnum idleSelection
      ⟨⟨"enum", [⟨"name", "GL_UNUSED"⟩, ⟨"value", "2"⟩]⟩, none⟩ := by
    refine ⟨rfl, .inr fun name hname => ?_⟩
    obtain rfl : "GL_UNUSED" = name := Option.some.inj hname
    decide +kernel
  have hother : declarations.IdleEnum idleSelection
      ⟨⟨"enum", [⟨"name", "GL_USED"⟩, ⟨"value", "3"⟩, ⟨"api", "gles2"⟩]⟩, none⟩ :=
    ⟨rfl, .inl ⟨"gles2", rfl, by decide⟩⟩
  have hcommand : declarations.IdleCommand idleSelection ⟨⟨"command", []⟩, some (Document.elements [
      (⟨"proto", []⟩, .element ⟨"name", []⟩ (.text "glUnused".toList .done) .done)])⟩ := by
    refine ⟨rfl, fun body hbody command hread => ?_⟩
    obtain rfl := Option.some.inj hbody
    have hvalue : (readCommand (Document.elements [(⟨"proto", []⟩,
        .element ⟨"name", []⟩ (.text "glUnused".toList .done) .done)])).toOption.map (·.name) =
          some "glUnused" := by decide +kernel
    rw [hread] at hvalue
    rw [show command.name = "glUnused" from Option.some.inj hvalue]
    decide +kernel
  have hmember : declarations.Dangling ⟨⟨"enum", [⟨"name", "GL_GONE"⟩]⟩, none⟩ :=
    ⟨.inl rfl, by decide +kernel, by decide +kernel⟩
  have hitem : declarations.Dangling ⟨⟨"command", [⟨"name", "glGone"⟩]⟩, none⟩ :=
    ⟨.inr rfl, by decide +kernel, by decide +kernel⟩
  have hblock : Declarations.IdleBlock idleSelection ⟨⟨"remove", [⟨"profile", "core"⟩]⟩,
      some (Document.voids [⟨"enum", [⟨"name", "GL_USED"⟩]⟩])⟩ :=
    ⟨.inr rfl, .inl ⟨"core", rfl, by decide⟩⟩
  refine .keep ⟨rfl, fun _ => ?_, by simp, by simp, by simp, by simp⟩ ?_
  · exact .keep rfl (.leave henum (.leave hother .nil))
  refine .keep ⟨rfl, by simp, fun _ => ?_, by simp, by simp, by simp⟩ ?_
  · exact .cons ⟨rfl, .some (.leave hmember (.keep rfl .nil))⟩ .nil
  refine .keep ⟨rfl, by simp, by simp, fun _ => .leave hcommand .nil, by simp, by simp⟩ ?_
  refine .keep ⟨rfl, by simp, by simp, by simp, fun _ => ?_, by simp⟩ ?_
  · exact .keep ⟨rfl, .some (.keep rfl (.leave hitem .nil))⟩ (.leave hblock .nil)
  refine .leave (.inl ⟨rfl, "gles2", rfl, by decide⟩) ?_
  refine .keep ⟨rfl, by simp, by simp, by simp, by simp, fun _ => .leave (.inl rfl) .nil⟩ ?_
  exact .leave (.inr ⟨rfl, by decide⟩) .nil

theorem read_of_pruned_prunedParts :
    ∃ registry,
      read (String.ofList (Document.registryElement fullParts).write) idleSelection = .ok registry ∧
      read (String.ofList (Document.registryElement prunedParts).write) idleSelection = .ok registry ∧
      registry.versions.map (fun version => (version.name, version.group? "Mask")) =
        [("GL_VERSION_1_0", some ⟨"Mask", [⟨"GL_USED", "USED", "1"⟩]⟩)] := by
  have hplain : (Document.registryElement prunedParts).Plain := by decide +kernel
  have hfull : Content.ofText (String.ofList (Document.registryElement fullParts).write) =
      Document.registryElement fullParts := ofText_write_content (by decide +kernel) rfl
  have hpruned : Content.ofText (String.ofList (Document.registryElement prunedParts).write) =
      Document.registryElement prunedParts := ofText_write_content hplain rfl
  have hmarkup : (Events.ofText (String.ofList (Document.registryElement prunedParts).write)).fault? =
      none := by
    rw [ofText_write_events hplain rfl, Content.fault?_events hplain]
    rfl
  have hproblems : problems idleSelection (Document.registryElement fullParts) = [] := by decide +kernel
  have hread : readDeclarations idleSelection (Document.registryElement fullParts) =
      .ok (declarationsOf idleSelection fullParts) := by
    obtain ⟨hroot, hwellFormed⟩ := problems_eq_nil_iff.mp hproblems
    exact readDeclarations_eq_ok_iff.mpr ⟨rfl, hroot, hwellFormed, rfl⟩
  rw [← hfull] at hread
  obtain ⟨hfirst, hsecond⟩ := read_of_pruned hmarkup (by rw [hpruned]; decide) hread
    (by rw [hfull, hpruned]; exact pruned_fullParts)
  exact ⟨_, hfirst, hsecond, by decide +kernel⟩

end RegistryBindings.Registry
