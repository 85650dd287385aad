import RegistryBindings.Proofs.Registry.Membership
import RegistryBindings.Proofs.Registry.Places

/-!
# Enumerants that take the group of their block

An enumerant that names no groups of its own is in the group that its block names. What it names itself is a
list, but what the block names is one group, whatever the value. So the group of the block can be spelled out for
its enumerants where it is an item of a list: not empty, with no blanks at its ends, and without a comma. Then
nothing changes, and for every other value something may.

`SpelledOut` relates documents of which the second spells out the group of some blocks for some of their
enumerants. Inside a block the readers agree because they read such enumerants alike. Everywhere else the tags are
the same, so agreement is carried outwards one element at a time.
-/

namespace RegistryBindings.Registry

open Markup Text

/-! ### Groups spelled out -/

/-- The second tag is the first one with a `group` attribute besides, wherever among the attributes it stands. -/
structure GivesGroup (group : String) (tag other : Tag) : Prop where
  name_eq : other.name = tag.name
  lacks : tag.value? "group" = none
  gives : other.value? "group" = some group
  others : ∀ key, key ≠ "group" → other.value? key = tag.value? key

/-- The tags are the same, or the second is the tag of an enumerant of the block for which the group is spelled
out. -/
inductive TagSpelledOut (group : String) : Option Tag → Tag → Tag → Prop
  | same {block? : Option Tag} (tag : Tag) : TagSpelledOut group block? tag tag
  | given {block tag other : Tag} (hblock : block.value? "group" = some group) (hname : tag.name = "enum")
    (hgives : GivesGroup group tag other) : TagSpelledOut group (some block) tag other

/-- The block whose enumerants are the children of the element. -/
def blockOf? (tag : Tag) : Option Tag :=
  if tag.name = "enums" then some tag else none

/-- The second content is the first one with the group spelled out for some enumerants of blocks that name it. -/
inductive SpelledOut (group : String) : Option Tag → Content → Content → Prop
  | done {block? : Option Tag} : SpelledOut group block? .done .done
  | failed {block? : Option Tag} (fault : Fault) : SpelledOut group block? (.failed fault) (.failed fault)
  | text {block? : Option Tag} (characters : List Char) {next next' : Content}
    (hnext : SpelledOut group block? next next') :
    SpelledOut group block? (.text characters next) (.text characters next')
  | void {block? : Option Tag} {tag other : Tag} {next next' : Content} (htag : TagSpelledOut group block? tag other)
    (hnext : SpelledOut group block? next next') : SpelledOut group block? (.void tag next) (.void other next')
  | element {block? : Option Tag} {tag other : Tag} {body body' next next' : Content}
    (htag : TagSpelledOut group block? tag other) (hbody : SpelledOut group (blockOf? tag) body body')
    (hnext : SpelledOut group block? next next') :
    SpelledOut group block? (.element tag body next) (.element other body' next')

section Tags

variable {group : String} {block? : Option Tag} {block tag other : Tag}

theorem givesGroup_insert (name group : String) (before after : List Attribute)
    (h : (Tag.mk name (before ++ after)).value? "group" = none) :
    GivesGroup group ⟨name, before ++ after⟩ ⟨name, before ++ ⟨"group", group⟩ :: after⟩ := by
  have hbefore : before.find? (·.name = "group") = none := by
    rw [Tag.value?, Option.map_eq_none_iff, List.find?_append, Option.or_eq_none_iff] at h
    exact h.1
  refine ⟨rfl, h, ?_, fun key hkey => ?_⟩
  · rw [Tag.value?, List.find?_append, hbefore]
    rfl
  · have hgroup : ¬ "group" = key := fun heq => hkey heq.symm
    simp [Tag.value?, List.find?_append, hgroup]

theorem TagSpelledOut.name_eq (h : TagSpelledOut group block? tag other) : other.name = tag.name := by
  cases h with
  | same => rfl
  | given hblock hname hgives => exact hgives.name_eq

/-- Nothing is spelled out in the tag of a section. -/
theorem TagSpelledOut.eq_of_isSection (h : TagSpelledOut group block? tag other) (hsection : IsSection tag) :
    other = tag := by
  cases h with
  | same => rfl
  | given hblock hname hgives =>
    rw [IsSection, hname] at hsection
    exact absurd hsection (by decide)

/-- An enumerant of a block is read the same, if the group is the only item of the list that it makes. -/
theorem TagSpelledOut.readEnum_eq (hgroup : IsItem ',' group) (h : TagSpelledOut group (some block) tag other)
    (selection : Selection) : readEnum selection block other = readEnum selection block tag := by
  cases h with
  | same => rfl
  | given hblock hname hgives =>
    have hrequired (key : String) (hkey : key ≠ "group") :
        requiredAttribute other key = requiredAttribute tag key := by
      rw [requiredAttribute, hgives.others key hkey, hgives.name_eq, requiredAttribute]
    have hgroups : ((other.value? "group").map (listItems ',')).getD (block.value? "group").toList =
        ((tag.value? "group").map (listItems ',')).getD (block.value? "group").toList := by
      rw [hgives.gives, hgives.lacks, hblock]
      exact listItems_of_isItem hgroup
    simp only [readEnum, hgives.others "api" (by decide), hrequired "name" (by decide),
      hrequired "value" (by decide), hgroups]

end Tags

/-! ### Inside the sections -/

section Sections

variable {group : String} {selection : Selection} {block? : Option Tag} {block tag : Tag}
  {content other : Content}

theorem SpelledOut.fault?_eq (h : SpelledOut group block? content other) : other.fault? = content.fault? := by
  induction h with
  | done => rfl
  | failed fault => rfl
  | text characters _ ih => exact ih
  | void _ _ ih => exact ih
  | element _ _ _ ihbody ihnext => rw [Content.fault?, ihbody, ihnext, Content.fault?]

theorem SpelledOut.skip_eq (h : SpelledOut group block? content other) : skip other = skip content := by
  rw [skip, h.fault?_eq, skip]

/-- The block for which the group is spelled out is read the same. -/
theorem SpelledOut.sameFor_enums (hgroup : IsItem ',' group) (h : SpelledOut group block? content other)
    (hblock : block? = some block) : (enumVisitor selection block).SameFor content other := by
  induction h with
  | done => exact fun _ => rfl
  | failed fault => exact fun _ => rfl
  | text characters _ ih => exact ih hblock
  | void htag _ ih =>
    subst hblock
    intro declarations
    simp only [Visitor.visit, enumVisitor, Visitor.items, htag.name_eq, htag.readEnum_eq hgroup]
    exact bind_congr fun after => ih rfl after
  | element htag hbody _ _ ihnext =>
    subst hblock
    intro declarations
    simp only [Visitor.visit, enumVisitor, Visitor.items, htag.name_eq, htag.readEnum_eq hgroup, hbody.skip_eq]
    exact bind_congr fun after => ihnext rfl after

theorem SpelledOut.sameFor_skipped (h : SpelledOut group block? content other) {σ : Type} {visitor : Visitor σ}
    (hvisitor : Reads selection .skipped visitor) : visitor.SameFor content other := by
  cases hvisitor
  intro state
  rw [visit_fault, visit_fault, h.skip_eq]

/-- There are no blocks inside the sections: an element of that name is skipped. -/
theorem Place.child_of_blockOf? {place : Place} (hplace : place ≠ .outside) (hblock : (blockOf? tag).isSome)
    (entered : Bool) : place.child entered tag.name = .skipped := by
  have hname : tag.name = "enums" := by
    by_contra hne
    rw [blockOf?, if_neg hne] at hblock
    cases hblock
  refine Place.child_of_not_mem hplace ?_ entered
  rw [hname]
  cases place with
  | outside => exact absurd rfl hplace
  | enums | groups | group | commands | command | declaration | text | interface | block | skipped => decide

theorem Place.ofSection_ne_enums {name : String} (h : name ≠ "enums") : Place.ofSection name ≠ .enums := by
  unfold Place.ofSection
  split
  · exact absurd rfl h
  all_goals decide

theorem Place.child_ne_enums {place : Place} (hplace : place ≠ .outside) (entered : Bool) (name : String) :
    place.child entered name ≠ .enums := by
  rw [Place.child, if_neg hplace]
  split
  · cases place <;> decide
  · decide

/-- What stands elsewhere in a section is read the same, since nothing is spelled out there that is read. -/
theorem SpelledOut.sameFor (h : SpelledOut group block? content other) {place : Place} (henums : place ≠ .enums)
    (hblock : block?.isSome → place = .skipped) {σ : Type} {visitor : Visitor σ}
    (hvisitor : Reads selection place visitor) : visitor.SameFor content other := by
  induction h generalizing place σ with
  | done => exact fun _ => rfl
  | failed fault => exact fun _ => rfl
  | text characters _ ih => exact fun _ => ih henums hblock hvisitor _
  | void htag hnext ih =>
    cases htag with
    | same tag => exact fun _ => bind_congr fun after => ih henums hblock hvisitor after
    | given hgroup hname hgives =>
      obtain rfl := hblock rfl
      exact (SpelledOut.void (.given hgroup hname hgives) hnext).sameFor_skipped hvisitor
  | @element block? tag other body body' next next' htag hbody hnext ihbody ihnext =>
    cases htag with
    | given hgroup hname hgives =>
      obtain rfl := hblock rfl
      exact (SpelledOut.element (.given hgroup hname hgives) hbody hnext).sameFor_skipped hvisitor
    | same =>
      have hinside {τ : Type} {inside : Visitor τ} (hreads : Reads selection (place.child true tag.name) inside) :
          inside.SameFor body body' :=
        ihbody (Place.child_ne_enums hvisitor.ne_outside true tag.name)
          (fun hsome => Place.child_of_blockOf? hvisitor.ne_outside hsome true) hreads
      intro state
      rw [Visitor.visit, Visitor.visit, hvisitor.element_congr hinside]
      exact bind_congr fun after => ihnext henums hblock hvisitor after

theorem SpelledOut.readSection?_eq (hgroup : IsItem ',' group) (h : SpelledOut group (blockOf? tag) content other)
    (declarations : Declarations) :
    readSection? selection declarations tag content = readSection? selection declarations tag other := by
  by_cases hname : tag.name = "enums"
  · have hvisitor : (enumVisitor selection tag).SameFor content other := h.sameFor_enums hgroup (if_pos hname)
    rw [readSection?, hname, readSection?, hname]
    exact congrArg some (hvisitor declarations)
  · have hnone : blockOf? tag = none := if_neg hname
    refine readSection?_eq_of_sameFor (fun hreads => ?_) declarations
    exact h.sameFor (Place.ofSection_ne_enums hname) (by simp [hnone]) hreads

/-! ### Whole documents -/

theorem SpelledOut.readOutside_eq (hgroup : IsItem ',' group) (h : SpelledOut group block? content other)
    (declarations? : Option Declarations) :
    readOutside selection declarations? content = readOutside selection declarations? other := by
  induction h generalizing declarations? with
  | done => rfl
  | failed fault => rfl
  | text characters _ ih => exact ih declarations?
  | void _ _ ih => exact ih declarations?
  | @element block? tag other body body' next next' htag hbody _ ihbody ihnext =>
    by_cases hsection : declarations?.isSome ∧ IsSection tag
    · obtain ⟨declarations, rfl⟩ := Option.isSome_iff_exists.mp hsection.1
      obtain ⟨result, hresult⟩ := exists_readSection? hsection.2 selection declarations body'
      rw [htag.eq_of_isSection hsection.2, readOutside, readOutside, Option.bind_some, Option.bind_some,
        hbody.readSection?_eq hgroup, hresult]
      exact bind_congr fun after => ihnext (some after)
    · have hother : ¬ (declarations?.isSome ∧ IsSection other) := by rwa [IsSection, htag.name_eq]
      rw [readOutside_through hsection, readOutside_through hother, entered?, entered?, htag.name_eq, ihbody]
      exact bind_congr fun after => ihnext after

end Sections

theorem read_eq_of_spelledOut {group text other : String} (hgroup : IsItem ',' group)
    (h : SpelledOut group none (Content.ofText text) (Content.ofText other)) (selection : Selection) :
    read text selection = read other selection := by
  rw [read, read, readDeclarations, readDeclarations, h.readOutside_eq hgroup]

/-! ### Groups that are no item -/

namespace Document

/-- A document with one enumerant, in a block that names a group, and with a feature that requires the
enumerant. The enumerant may name groups of its own. -/
def oneMember (group : PlainText) (own? : Option PlainText) : Document where
  sections := [
    .enums none (some group)
      [{ name := plainText "GL_ONE" (by decide), value := plainText "1" (by decide), group? := own? }],
    .feature (plainText "gl" (by decide)) (plainText "GL_VERSION_1_0" (by decide)) (plainText "1.0" (by decide))
      [{ kind := .require, items := [.enum (plainText "GL_ONE" (by decide))] }]]

def oneMemberGroups (group : PlainText) : Option PlainText → List String
  | some own => listItems ',' own.text
  | none => [group.text]

def oneMemberDeclarations (groups : List String) : Declarations where
  enums := Catalog.ofList [⟨⟨"GL_ONE", "ONE", "1"⟩, groups, false⟩]
  features := [⟨"gl", "GL_VERSION_1_0", "1.0",
    [{ kind := .require, profile? := none, api? := none, enums := ["GL_ONE"] }]⟩]

theorem declarations_oneMember (group : PlainText) (own? : Option PlainText) (selection : Selection) :
    (oneMember group own?).declarations selection = oneMemberDeclarations (oneMemberGroups group own?) := by
  have hshort : firstRest none "GL_ONE" = "ONE" := by decide +kernel
  have henums : (oneMember group own?).enumDeclarations selection =
      [⟨⟨"GL_ONE", "ONE", "1"⟩, oneMemberGroups group own?, false⟩] := by
    cases own? <;>
      simp [oneMember, oneMemberGroups, enumDeclarations, EnumItem.declaration?, plainText, hshort, listItems_text]
  rw [declarations, henums]
  rfl

/-- The document gives one version, which has the groups of the enumerant and no others. -/
theorem exists_version_oneMember {selection : Selection} (h : "gl" ∈ selection.apis) (groups : List String) :
    ∃ version, ((oneMemberDeclarations groups).registry selection).versions[0]? = some version ∧
      ∀ name, version.hasGroup name = true ↔ name ∈ groups := by
  have hfeatures : (oneMemberDeclarations groups).selectedFeatures selection =
      (oneMemberDeclarations groups).features := by
    simp [Declarations.selectedFeatures, oneMemberDeclarations, h]
  obtain ⟨version, hversion⟩ :
      ∃ version, ((oneMemberDeclarations groups).registry selection).versions[0]? = some version := by
    rw [Declarations.versions_eq_mapIdx, hfeatures]
    exact ⟨_, rfl⟩
  refine ⟨version, hversion, fun name => ?_⟩
  rw [Declarations.hasGroup_of_mem_versions hversion]
  have hrequires : (oneMemberDeclarations groups).Requires selection (·.enums) 1 "GL_ONE" := by
    refine .inl ?_
    rw [Declarations.appliedBlocks, hfeatures]
    simp [oneMemberDeclarations, lastMention?, InterfaceBlock.Applicable]
  have htoList : (oneMemberDeclarations groups).enums.toList = [⟨⟨"GL_ONE", "ONE", "1"⟩, groups, false⟩] := by
    rfl
  have hlistings : (oneMemberDeclarations groups).listings = [] := rfl
  simp [htoList, hrequires, hlistings, Declarations.Belongs]

theorem spelledOut_oneMember (group : PlainText) :
    SpelledOut group.text none (oneMember group none).content (oneMember group (some group)).content := by
  have hblock : (tag "enums" [("namespace", none), ("group", some group)]).value? "group" = some group.text := rfl
  have hgives := givesGroup_insert "enum" group.text [⟨"name", "GL_ONE"⟩, ⟨"value", "1"⟩] [] rfl
  refine .element (.same _) (.element (.same _) (.void (.given hblock rfl hgives) .done) ?_) .done
  exact .element (.same _) (.element (.same _) (.void (.same _) .done) .done) .done

/-- If the two ways to write the document read the same, its group is an item. -/
theorem isItem_of_read_oneMember_eq {group : PlainText} {selection : Selection} (h : "gl" ∈ selection.apis)
    (hread : read (oneMember group none).render selection = read (oneMember group (some group)).render selection) :
    IsItem ',' group.text := by
  rw [read, readDeclarations_render, read, readDeclarations_render, declarations_oneMember,
    declarations_oneMember] at hread
  have hregistry : (oneMemberDeclarations [group.text]).registry selection =
      (oneMemberDeclarations (listItems ',' group.text)).registry selection := Except.ok.inj hread
  obtain ⟨version, hversion, hinherited⟩ := exists_version_oneMember h [group.text]
  obtain ⟨version', hversion', hown⟩ := exists_version_oneMember h (listItems ',' group.text)
  rw [hregistry, hversion'] at hversion
  obtain rfl := Option.some.inj hversion
  have hgroup : version'.hasGroup group.text = true := (hinherited group.text).mpr (List.mem_singleton_self _)
  exact isItem_of_mem_listItems ((hown group.text).mp hgroup)

end Document

/-- To spell out the group of a block for its enumerants changes nothing if the group is an item of a list, so for
one name without blanks at its ends and without a comma. For any other value there is a document that it changes. -/
theorem read_spelledOut (group : String) (selection : Selection) :
    (IsItem ',' group →
      ∀ text other, SpelledOut group none (Content.ofText text) (Content.ofText other) →
        read text selection = read other selection) ∧
    (¬ IsItem ',' group → (∀ c ∈ group.toList, isPlain c = true) → "gl" ∈ selection.apis →
      ∃ text other, SpelledOut group none (Content.ofText text) (Content.ofText other) ∧
        read text selection ≠ read other selection) := by
  refine ⟨fun hgroup text other h => read_eq_of_spelledOut hgroup h selection, fun hgroup hplain hselected => ?_⟩
  let plain : PlainText := ⟨group, hplain⟩
  refine ⟨(Document.oneMember plain none).render, (Document.oneMember plain (some plain)).render, ?_,
    fun hread => ?_⟩
  · rw [Document.ofText_render, Document.ofText_render]
    exact Document.spelledOut_oneMember plain
  · exact hgroup (Document.isItem_of_read_oneMember_eq hselected hread)

/-- Two blocks that name the same group, and a feature that requires their enumerants. One of them names groups of
its own, one is opened. -/
def modeBlocks (one three : Tag) : Content :=
  .element ⟨"registry", []⟩
    (.element ⟨"enums", [⟨"namespace", "GL"⟩, ⟨"group", "Mode"⟩]⟩
      (.void one (.void ⟨"enum", [⟨"name", "GL_TWO"⟩, ⟨"value", "2"⟩, ⟨"group", "Mode, Mask"⟩]⟩ .done))
      (.element ⟨"enums", [⟨"group", "Mode"⟩]⟩ (.element three (.void ⟨"enum", []⟩ .done) .done)
        (.element ⟨"feature", [⟨"api", "gl"⟩, ⟨"name", "GL_VERSION_1_0"⟩]⟩
          (.element ⟨"require", []⟩
            (.void ⟨"enum", [⟨"name", "GL_ONE"⟩]⟩
              (.void ⟨"enum", [⟨"name", "GL_TWO"⟩]⟩ (.void ⟨"enum", [⟨"name", "GL_THREE"⟩]⟩ .done)))
            .done)
          .done)))
    .done

def inheritedModes : Content :=
  modeBlocks ⟨"enum", [⟨"name", "GL_ONE"⟩, ⟨"value", "1"⟩]⟩ ⟨"enum", [⟨"name", "GL_THREE"⟩, ⟨"value", "3"⟩]⟩

def spelledOutModes : Content :=
  modeBlocks ⟨"enum", [⟨"name", "GL_ONE"⟩, ⟨"value", "1"⟩, ⟨"group", "Mode"⟩]⟩
    ⟨"enum", [⟨"group", "Mode"⟩, ⟨"name", "GL_THREE"⟩, ⟨"value", "3"⟩]⟩

theorem spelledOut_inheritedModes : SpelledOut "Mode" none inheritedModes spelledOutModes := by
  refine .element (.same _) (.element (.same _) ?_ (.element (.same _) ?_ ?_)) .done
  · have hgives := givesGroup_insert "enum" "Mode" [⟨"name", "GL_ONE"⟩, ⟨"value", "1"⟩] [] (by decide)
    exact .void (.given (by decide) rfl hgives) (.void (.same _) .done)
  · have hgives := givesGroup_insert "enum" "Mode" [] [⟨"name", "GL_THREE"⟩, ⟨"value", "3"⟩] (by decide)
    exact .element (.given (by decide) rfl hgives) (.void (.same _) .done) .done
  · refine .element (.same _) (.element (.same _) ?_ .done) .done
    exact .void (.same _) (.void (.same _) (.void (.same _) .done))

def groupNames (result : Except ReadError Registry) : Option (List (List (String × List String))) :=
  result.toOption.map fun registry =>
    registry.versions.map fun version =>
      version.groupList.map fun group => (group.name, group.members.map (·.name))

theorem read_spelledOut_inheritedModes :
    read (String.ofList inheritedModes.write) {} = read (String.ofList spelledOutModes.write) {} ∧
      groupNames (read (String.ofList inheritedModes.write) {}) =
        some [[("Mask", ["GL_TWO"]), ("Mode", ["GL_ONE", "GL_TWO", "GL_THREE"])]] ∧
      ∃ text other, SpelledOut " Mode" none (Content.ofText text) (Content.ofText other) ∧
        read text {} ≠ read other {} := by
  have hinherited : Content.ofText (String.ofList inheritedModes.write) = inheritedModes :=
    ofText_write_content (by decide +kernel) rfl
  have hspelledOut : Content.ofText (String.ofList spelledOutModes.write) = spelledOutModes :=
    ofText_write_content (by decide +kernel) rfl
  have hitem : IsItem ',' "Mode" := ⟨by decide +kernel, by decide +kernel, by decide +kernel⟩
  have hnone : ¬ IsItem ',' " Mode" := fun hitem => absurd hitem.trimmed (by decide +kernel)
  refine ⟨(read_spelledOut "Mode" {}).1 hitem _ _ ?_, ?_, ?_⟩
  · rw [hinherited, hspelledOut]
    exact spelledOut_inheritedModes
  · rw [read, hinherited]
    decide +kernel
  · exact (read_spelledOut " Mode" {}).2 hnone (List.all_eq_true.mp (by decide)) List.mem_cons_self

def twoNames : PlainText :=
  Document.plainText "A,B" (by decide)

/-- A block that names two groups gives its enumerants one group of both names. An enumerant that names them itself
is in either. -/
theorem read_oneMember_twoNames :
    SpelledOut "A,B" none (Content.ofText (Document.oneMember twoNames none).render)
        (Content.ofText (Document.oneMember twoNames (some twoNames)).render) ∧
      read (Document.oneMember twoNames none).render {} ≠
        read (Document.oneMember twoNames (some twoNames)).render {} ∧
      groupNames (read (Document.oneMember twoNames none).render {}) = some [[("A,B", ["GL_ONE"])]] ∧
      groupNames (read (Document.oneMember twoNames (some twoNames)).render {}) =
        some [[("A", ["GL_ONE"]), ("B", ["GL_ONE"])]] := by
  have hone : groupNames (read (Document.oneMember twoNames none).render {}) =
      some [[("A,B", ["GL_ONE"])]] := by
    rw [read, Document.readDeclarations_render]
    decide +kernel
  have htwo : groupNames (read (Document.oneMember twoNames (some twoNames)).render {}) =
      some [[("A", ["GL_ONE"]), ("B", ["GL_ONE"])]] := by
    rw [read, Document.readDeclarations_render]
    decide +kernel
  refine ⟨?_, fun heq => ?_, hone, htwo⟩
  · rw [Document.ofText_render, Document.ofText_render]
    exact Document.spelledOut_oneMember twoNames
  · rw [heq, htwo] at hone
    exact absurd hone (by decide)

end RegistryBindings.Registry
