import RegistryBindings.Proofs.Registry.Acceptance

/-!
# What a document declares, section by section

A reader carries declarations along and adds to them as it goes. What it has in the end does not need that
story: each section declares some things by itself, whatever stands before it, and the declarations of a
document are those of its sections, kind by kind. `declarationsOf` says so without errors.
`readDeclarations_eq_ok_iff` says when a document is read and that just these declarations come out, so that
later modules can compare two documents by their sections and need not run a reader on either.
-/

namespace RegistryBindings.Registry

open Markup Text

/-! ### What the children of a section declare -/

def itemName? (kind : String) (child : Child) : Option String :=
  if child.tag.name = kind then child.tag.value? "name" else none

def declaredEnum? (selection : Selection) (block : Tag) (child : Child) : Option EnumDeclaration :=
  if child.tag.name = "enum" then (readEnum selection block child.tag).toOption.join else none

def declaredListing? (child : Child) : Option Listing :=
  child.body?.bind fun body =>
    (itemName? "group" child).map fun name => ⟨name, body.children.filterMap (itemName? "enum")⟩

def declaredCommand? (child : Child) : Option Command :=
  child.body?.bind fun body => if child.tag.name = "command" then (readCommand body).toOption else none

def blockKind? : String → Option BlockKind
  | "require" => some .require
  | "remove" => some .remove
  | _ => none

def declaredBlock? (child : Child) : Option InterfaceBlock :=
  child.body?.bind fun body => (blockKind? child.tag.name).map fun kind =>
    { kind
      profile? := child.tag.value? "profile"
      api? := child.tag.value? "api"
      enums := body.children.filterMap (itemName? "enum")
      commands := body.children.filterMap (itemName? "command") }

/-! ### What a section declares -/

abbrev Part := Tag × Content

namespace Part

def ofKind {α : Type} (kind : String) (declared : Part → List α) (part : Part) : List α :=
  if part.1.name = kind then declared part else []

def enums (selection : Selection) : Part → List EnumDeclaration :=
  ofKind "enums" fun part => part.2.children.filterMap (declaredEnum? selection part.1)

def listings : Part → List Listing :=
  ofKind "groups" fun part => part.2.children.filterMap declaredListing?

def commands : Part → List Command :=
  ofKind "commands" fun part => part.2.children.filterMap declaredCommand?

def features : Part → List Feature :=
  ofKind "feature" fun part => ((part.1.value? "api").bind fun api => (part.1.value? "name").map fun name =>
    { api
      name
      number := (part.1.value? "number").getD ""
      blocks := part.2.children.filterMap declaredBlock? : Feature }).toList

def extensions : Part → List Extension :=
  ofKind "extension" fun part => ((part.1.value? "name").map fun name =>
    { name
      supported := ((part.1.value? "supported").map (listItems '|')).getD []
      blocks := part.2.children.filterMap declaredBlock? : Extension }).toList

end Part

namespace Declarations

def extend (declarations : Declarations) (selection : Selection) (parts : List Part) : Declarations where
  enums := (parts.flatMap (Part.enums selection)).foldl .add declarations.enums
  listings := declarations.listings ++ parts.flatMap Part.listings
  commands := (parts.flatMap Part.commands).foldl .add declarations.commands
  features := declarations.features ++ parts.flatMap Part.features
  extensions := declarations.extensions ++ parts.flatMap Part.extensions

theorem extend_nil (declarations : Declarations) (selection : Selection) :
    declarations.extend selection [] = declarations := by
  simp [extend]

theorem extend_append (declarations : Declarations) (selection : Selection) (parts more : List Part) :
    declarations.extend selection (parts ++ more) =
      (declarations.extend selection parts).extend selection more := by
  simp [extend, List.foldl_append]

end Declarations

def declarationsOf (selection : Selection) (parts : List Part) : Declarations :=
  ({} : Declarations).extend selection parts

/-! ### A reader that succeeds has met no fault -/

section Visiting

variable {σ β : Type} {visitor : Visitor σ}

theorem fault?_of_skip {content : Content} (h : skip content = .ok ()) : content.fault? = none := by
  unfold skip at h
  split at h
  · assumption
  · cases h

theorem fault?_of_visit
    (helement : ∀ state tag body after, visitor.element state tag body = .ok after → body.fault? = none)
    {content : Content} {state final : σ} (h : visitor.visit state content = .ok final) :
    content.fault? = none := by
  induction content generalizing state with
  | done => rfl
  | failed fault => cases h
  | text characters next ih => exact ih h
  | void tag next ih =>
    obtain ⟨after, -, hvisit⟩ := exists_ok_of_bind h
    exact ih hvisit
  | element tag body next _ ih =>
    obtain ⟨after, hafter, hvisit⟩ := exists_ok_of_bind h
    exact Option.or_eq_none_iff.mpr ⟨helement state tag body after hafter, ih hvisit⟩

theorem fault?_of_items {read : σ → Tag → Except ReadError σ} {content : Content} {state final : σ}
    (h : (Visitor.items read).visit state content = .ok final) : content.fault? = none := by
  refine fault?_of_visit ?_ h
  intro state tag body after hafter
  obtain ⟨_, -, hrest⟩ := exists_ok_of_bind hafter
  obtain ⟨_, hskip, -⟩ := exists_ok_of_bind hrest
  exact fault?_of_skip hskip

theorem fault?_of_sections {read : String → Option (σ → Tag → Content → Except ReadError σ)}
    (hread : ∀ name visitElement, read name = some visitElement → ∀ state tag body after,
      visitElement state tag body = .ok after → body.fault? = none)
    {content : Content} {state final : σ}
    (h : (Visitor.sections read).visit state content = .ok final) : content.fault? = none := by
  refine fault?_of_visit ?_ h
  intro state tag body after hafter
  simp only [Visitor.sections] at hafter
  split at hafter
  · next visitElement hname => exact hread _ _ hname state tag body after hafter
  · obtain ⟨_, hskip, -⟩ := exists_ok_of_bind hafter
    exact fault?_of_skip hskip

/-- A visitor whose state is a function of what was found has found what the children declare. -/
theorem eq_of_visit (initial : σ) (state : List β → σ) (collect : Child → Option β)
    (hinitial : state [] = initial)
    (htext : ∀ found text, visitor.text (state found) text = state found)
    (hvoid : ∀ found tag after, visitor.void (state found) tag = .ok after →
      after = state (found ++ (collect ⟨tag, none⟩).toList))
    (helement : ∀ found tag body after, visitor.element (state found) tag body = .ok after →
      after = state (found ++ (collect ⟨tag, some body⟩).toList))
    {content : Content} {final : σ} (h : visitor.visit initial content = .ok final) :
    final = state (content.children.filterMap collect) := by
  have hcons (child : Child) (children : List Child) (found : List β) :
      found ++ (child :: children).filterMap collect =
        found ++ (collect child).toList ++ children.filterMap collect := by
    rw [List.filterMap_cons]
    cases collect child <;> simp
  subst hinitial
  suffices hrun : ∀ found, visitor.visit (state found) content = .ok final →
      final = state (found ++ content.children.filterMap collect) from hrun [] h
  clear h
  intro found h
  induction content generalizing found with
  | done =>
    cases h
    simp [Content.children]
  | failed fault => cases h
  | text characters next ih =>
    refine ih found ?_
    rw [← htext found characters]
    exact h
  | void tag next ih =>
    obtain ⟨after, hafter, hvisit⟩ := exists_ok_of_bind h
    obtain rfl := hvoid found tag after hafter
    rw [ih _ hvisit, Content.children, hcons]
  | element tag body next _ ih =>
    obtain ⟨after, hafter, hvisit⟩ := exists_ok_of_bind h
    obtain rfl := helement found tag body after hafter
    rw [ih _ hvisit, Content.children, hcons]

theorem eq_of_items {read : σ → Tag → Except ReadError σ} (initial : σ) (state : List β → σ)
    (collect : Child → Option β) (hinitial : state [] = initial)
    (hread : ∀ found tag body? after, read (state found) tag = .ok after →
      after = state (found ++ (collect ⟨tag, body?⟩).toList))
    {content : Content} {final : σ} (h : (Visitor.items read).visit initial content = .ok final) :
    final = state (content.children.filterMap collect) := by
  refine eq_of_visit initial state collect hinitial (fun _ _ => rfl)
    (fun found tag => hread found tag none) ?_ h
  intro found tag body after hafter
  obtain ⟨middle, hmiddle, hrest⟩ := exists_ok_of_bind hafter
  obtain ⟨_, -, hdone⟩ := exists_ok_of_bind hrest
  cases hdone
  exact hread found tag (some body) _ hmiddle

theorem eq_of_sections {read : String → Option (σ → Tag → Content → Except ReadError σ)} (initial : σ)
    (state : List β → σ) (collect : Child → Option β) (hinitial : state [] = initial)
    (hvoid : ∀ tag, collect ⟨tag, none⟩ = none)
    (hread : ∀ tag visitElement, read tag.name = some visitElement → ∀ found body after,
      visitElement (state found) tag body = .ok after →
        after = state (found ++ (collect ⟨tag, some body⟩).toList))
    (hskip : ∀ tag body, read tag.name = none → collect ⟨tag, some body⟩ = none)
    {content : Content} {final : σ} (h : (Visitor.sections read).visit initial content = .ok final) :
    final = state (content.children.filterMap collect) := by
  refine eq_of_visit initial state collect hinitial (fun _ _ => rfl) ?_ ?_ h
  · intro found tag after hafter
    cases hafter
    simp [hvoid]
  · intro found tag body after hafter
    simp only [Visitor.sections] at hafter
    split at hafter
    · next visitElement hname => exact hread tag visitElement hname found body after hafter
    · next hname =>
      obtain ⟨_, -, hdone⟩ := exists_ok_of_bind hafter
      cases hdone
      simp [hskip tag body hname]

end Visiting

/-! ### The readers of items -/

theorem value?_of_requiredAttribute {tag : Tag} {name value : String}
    (h : requiredAttribute tag name = .ok value) : tag.value? name = some value := by
  unfold requiredAttribute at h
  split at h
  · next found hfound =>
    cases h
    exact hfound
  · cases h

theorem eq_of_enums {selection : Selection} {block : Tag} {content : Content}
    {declarations final : Declarations}
    (h : (enumVisitor selection block).visit declarations content = .ok final) :
    final = { declarations with
      enums :=
        (content.children.filterMap (declaredEnum? selection block)).foldl .add declarations.enums } := by
  refine eq_of_items declarations
    (fun found => { declarations with enums := found.foldl .add declarations.enums })
    (declaredEnum? selection block) rfl ?_ h
  intro found tag body? after hafter
  simp only [declaredEnum?]
  split at hafter
  · next hname =>
    obtain ⟨declared?, hread, hdone⟩ := exists_ok_of_bind hafter
    cases hdone
    rw [if_pos hname, hread]
    cases declared? with
    | none => simp [Declarations.addEnum?, Except.toOption]
    | some declaration => simp [Declarations.addEnum?, Except.toOption]
  · next hname =>
    cases hafter
    simp [hname]

theorem eq_of_members {content : Content} {final : List String}
    (h : memberVisitor.visit [] content = .ok final) :
    final = content.children.filterMap (itemName? "enum") := by
  refine eq_of_items [] id (itemName? "enum") rfl ?_ h
  intro found tag body? after hafter
  simp only [itemName?]
  split at hafter
  · next hname =>
    obtain ⟨name, hread, hdone⟩ := exists_ok_of_bind hafter
    cases hdone
    simp [hname, value?_of_requiredAttribute hread]
  · next hname =>
    cases hafter
    simp [hname]

theorem eq_of_readBlock {kind : BlockKind} {tag : Tag} {content : Content} {final : InterfaceBlock}
    (h : readBlock kind tag content = .ok final) :
    final =
      { kind
        profile? := tag.value? "profile"
        api? := tag.value? "api"
        enums := content.children.filterMap (itemName? "enum")
        commands := content.children.filterMap (itemName? "command") } := by
  have hfinal := eq_of_items _
    (fun found : List Child =>
      ({ kind
         profile? := tag.value? "profile"
         api? := tag.value? "api"
         enums := found.filterMap (itemName? "enum")
         commands := found.filterMap (itemName? "command") } : InterfaceBlock)) some rfl ?_ h
  · simpa using hfinal
  intro found item body? after hafter
  simp only [Option.toList_some, List.filterMap_append, List.filterMap_cons, List.filterMap_nil,
    itemName?]
  split at hafter
  · next hname =>
    obtain ⟨name, hread, hdone⟩ := exists_ok_of_bind hafter
    cases hdone
    simp [hname, value?_of_requiredAttribute hread]
  · next hname =>
    obtain ⟨name, hread, hdone⟩ := exists_ok_of_bind hafter
    cases hdone
    simp [hname, value?_of_requiredAttribute hread]
  · next henum hcommand =>
    cases hafter
    rw [if_neg henum, if_neg hcommand]
    simp

/-! ### The readers of sections -/

theorem eq_of_readListing {tag : Tag} {content : Content} {final : Listing}
    (h : readListing tag content = .ok final) :
    tag.value? "name" = some final.group ∧
      final.members = content.children.filterMap (itemName? "enum") := by
  obtain ⟨name, hname, hrest⟩ := exists_ok_of_bind h
  obtain ⟨members, hmembers, hdone⟩ := exists_ok_of_bind hrest
  cases hdone
  exact ⟨value?_of_requiredAttribute hname, eq_of_members hmembers⟩

theorem eq_of_groups {content : Content} {declarations final : Declarations}
    (h : listingVisitor.visit declarations content = .ok final) :
    final = { declarations with
      listings := declarations.listings ++ content.children.filterMap declaredListing? } := by
  refine eq_of_sections declarations
    (fun found => { declarations with listings := declarations.listings ++ found })
    declaredListing? (by simp) (fun _ => rfl) ?_ ?_ h
  · intro tag visitElement hread found body after hafter
    split at hread
    · next hname =>
      cases hread
      obtain ⟨listing, hlisting, hdone⟩ := exists_ok_of_bind hafter
      cases hdone
      obtain ⟨hgroup, hmembers⟩ := eq_of_readListing hlisting
      simp [declaredListing?, itemName?, hname, hgroup, ← hmembers, Declarations.addListing]
    · cases hread
  · intro tag body hread
    split at hread
    · cases hread
    · next hname =>
      have hnone : itemName? "group" ⟨tag, some body⟩ = none := if_neg hname
      simp [declaredListing?, hnone]

theorem eq_of_commands {content : Content} {declarations final : Declarations}
    (h : commandVisitor.visit declarations content = .ok final) :
    final = { declarations with
      commands := (content.children.filterMap declaredCommand?).foldl .add declarations.commands } := by
  refine eq_of_sections declarations
    (fun found => { declarations with commands := found.foldl .add declarations.commands })
    declaredCommand? rfl (fun _ => rfl) ?_ ?_ h
  · intro tag visitElement hread found body after hafter
    split at hread
    · next hname =>
      cases hread
      obtain ⟨command, hcommand, hdone⟩ := exists_ok_of_bind hafter
      cases hdone
      simp [declaredCommand?, hname, hcommand, Except.toOption, Declarations.addCommand]
    · cases hread
  · intro tag body hread
    split at hread
    · cases hread
    · next hname => simp only [declaredCommand?, Option.bind_some, if_neg hname]

theorem eq_of_blocks {content : Content} {final : List InterfaceBlock}
    (h : blockVisitor.visit [] content = .ok final) :
    final = content.children.filterMap declaredBlock? := by
  refine eq_of_sections [] id declaredBlock? rfl (fun _ => rfl) ?_ ?_ h
  · intro tag visitElement hread found body after hafter
    split at hread
    · next hname =>
      cases hread
      obtain ⟨block, hblock, hdone⟩ := exists_ok_of_bind hafter
      cases hdone
      simp [declaredBlock?, hname, blockKind?, ← eq_of_readBlock hblock]
    · next hname =>
      cases hread
      obtain ⟨block, hblock, hdone⟩ := exists_ok_of_bind hafter
      cases hdone
      simp [declaredBlock?, hname, blockKind?, ← eq_of_readBlock hblock]
    · cases hread
  · intro tag body hread
    split at hread
    · cases hread
    · cases hread
    · next hrequire hremove => simp [declaredBlock?, blockKind?]

theorem features_of_readFeature {tag : Tag} {content : Content} {feature : Feature}
    (hname : tag.name = "feature") (h : readFeature tag content = .ok feature) :
    Part.features (tag, content) = [feature] := by
  obtain ⟨api, hapi, hrest⟩ := exists_ok_of_bind h
  obtain ⟨name, hname', hrest⟩ := exists_ok_of_bind hrest
  obtain ⟨blocks, hblocks, hdone⟩ := exists_ok_of_bind hrest
  cases hdone
  simp [Part.features, Part.ofKind, hname, value?_of_requiredAttribute hapi,
    value?_of_requiredAttribute hname', ← eq_of_blocks hblocks]

theorem extensions_of_readExtension {tag : Tag} {content : Content} {extension : Extension}
    (hname : tag.name = "extension") (h : readExtension tag content = .ok extension) :
    Part.extensions (tag, content) = [extension] := by
  obtain ⟨name, hname', hrest⟩ := exists_ok_of_bind h
  obtain ⟨blocks, hblocks, hdone⟩ := exists_ok_of_bind hrest
  cases hdone
  simp [Part.extensions, Part.ofKind, hname, value?_of_requiredAttribute hname', ← eq_of_blocks hblocks]

theorem eq_extend_of_readSection? {selection : Selection} {declarations after : Declarations}
    {tag : Tag} {content : Content}
    (h : readSection? selection declarations tag content = some (.ok after)) :
    after = declarations.extend selection [(tag, content)] := by
  unfold readSection? at h
  split at h
  · next hname =>
    rw [eq_of_enums (Option.some.inj h)]
    simp [Declarations.extend, Part.enums, Part.listings, Part.commands, Part.features,
      Part.extensions, Part.ofKind, hname]
  · next hname =>
    rw [eq_of_groups (Option.some.inj h)]
    simp [Declarations.extend, Part.enums, Part.listings, Part.commands, Part.features,
      Part.extensions, Part.ofKind, hname]
  · next hname =>
    rw [eq_of_commands (Option.some.inj h)]
    simp [Declarations.extend, Part.enums, Part.listings, Part.commands, Part.features,
      Part.extensions, Part.ofKind, hname]
  · next hname =>
    obtain ⟨feature, hfeature, hdone⟩ := exists_ok_of_bind (Option.some.inj h)
    cases hdone
    have hfeatures := features_of_readFeature hname hfeature
    simp [Declarations.extend, Declarations.addFeature, Part.enums, Part.listings, Part.commands,
      Part.extensions, Part.ofKind, hname, hfeatures]
  · next hname =>
    obtain ⟨extension, hextension, hdone⟩ := exists_ok_of_bind (Option.some.inj h)
    cases hdone
    have hextensions := extensions_of_readExtension hname hextension
    simp [Declarations.extend, Declarations.addExtension, Part.enums, Part.listings, Part.commands,
      Part.features, Part.ofKind, hname, hextensions]
  · cases h

/-! ### A whole document -/

theorem fault?_of_text {content : Content} {text final : List Char}
    (h : textVisitor.visit text content = .ok final) : content.fault? = none := by
  refine fault?_of_visit ?_ h
  intro text tag body after hafter
  obtain ⟨_, hskip, -⟩ := exists_ok_of_bind hafter
  exact fault?_of_skip hskip

theorem fault?_of_readDeclaration {tag : Tag} {content : Content} {declared : String × TypeRef}
    (h : readDeclaration tag content = .ok declared) : content.fault? = none := by
  obtain ⟨declaration, hvisit, -⟩ := exists_ok_of_bind h
  refine fault?_of_visit ?_ hvisit
  intro declaration tag body after hafter
  simp only [declarationVisitor] at hafter
  split at hafter
  · obtain ⟨_, htext, -⟩ := exists_ok_of_bind hafter
    exact fault?_of_text htext
  · obtain ⟨_, htext, -⟩ := exists_ok_of_bind hafter
    exact fault?_of_text htext
  · obtain ⟨_, hskip, -⟩ := exists_ok_of_bind hafter
    exact fault?_of_skip hskip

theorem fault?_of_readCommand {content : Content} {command : Command}
    (h : readCommand content = .ok command) : content.fault? = none := by
  obtain ⟨partial', hvisit, -⟩ := exists_ok_of_bind h
  refine fault?_of_sections ?_ hvisit
  intro name visitElement hread command tag body after hafter
  split at hread
  · cases hread
    obtain ⟨_, hdeclaration, -⟩ := exists_ok_of_bind hafter
    exact fault?_of_readDeclaration hdeclaration
  · cases hread
    obtain ⟨_, hdeclaration, -⟩ := exists_ok_of_bind hafter
    exact fault?_of_readDeclaration hdeclaration
  · cases hread

theorem fault?_of_blocks {content : Content} {blocks final : List InterfaceBlock}
    (h : blockVisitor.visit blocks content = .ok final) : content.fault? = none := by
  refine fault?_of_sections ?_ h
  intro name visitElement hread blocks tag body after hafter
  split at hread
  · cases hread
    obtain ⟨_, hblock, -⟩ := exists_ok_of_bind hafter
    exact fault?_of_items hblock
  · cases hread
    obtain ⟨_, hblock, -⟩ := exists_ok_of_bind hafter
    exact fault?_of_items hblock
  · cases hread

theorem fault?_of_readSection? {selection : Selection} {declarations after : Declarations}
    {tag : Tag} {content : Content}
    (h : readSection? selection declarations tag content = some (.ok after)) :
    content.fault? = none := by
  unfold readSection? at h
  split at h
  · exact fault?_of_items (Option.some.inj h)
  · refine fault?_of_sections ?_ (Option.some.inj h)
    intro name visitElement hread declarations tag body after hafter
    split at hread
    · cases hread
      obtain ⟨_, hlisting, -⟩ := exists_ok_of_bind hafter
      obtain ⟨_, -, hrest⟩ := exists_ok_of_bind hlisting
      obtain ⟨_, hmembers, -⟩ := exists_ok_of_bind hrest
      exact fault?_of_items hmembers
    · cases hread
  · refine fault?_of_sections ?_ (Option.some.inj h)
    intro name visitElement hread declarations tag body after hafter
    split at hread
    · cases hread
      obtain ⟨_, hcommand, -⟩ := exists_ok_of_bind hafter
      exact fault?_of_readCommand hcommand
    · cases hread
  · obtain ⟨_, hfeature, -⟩ := exists_ok_of_bind (Option.some.inj h)
    obtain ⟨_, -, hrest⟩ := exists_ok_of_bind hfeature
    obtain ⟨_, -, hrest⟩ := exists_ok_of_bind hrest
    obtain ⟨_, hblocks, -⟩ := exists_ok_of_bind hrest
    exact fault?_of_blocks hblocks
  · obtain ⟨_, hextension, -⟩ := exists_ok_of_bind (Option.some.inj h)
    obtain ⟨_, -, hrest⟩ := exists_ok_of_bind hextension
    obtain ⟨_, hblocks, -⟩ := exists_ok_of_bind hrest
    exact fault?_of_blocks hblocks
  · cases h

/-- What stands outside the sections adds nothing, whether the registry element was opened before or is
opened in it. -/
theorem readOutside_eq_ok {selection : Selection} {content : Content}
    {declarations? final : Option Declarations}
    (h : readOutside selection declarations? content = .ok final) :
    content.fault? = none ∧
      final.getD {} = (declarations?.getD {}).extend selection (sections declarations?.isSome content) := by
  induction content generalizing declarations? final with
  | done =>
    cases h
    exact ⟨rfl, (Declarations.extend_nil _ selection).symm⟩
  | failed fault => cases h
  | text characters next ih => exact ih h
  | void tag next ih => exact ih h
  | element tag body next ihbody ihnext =>
    rw [sections, Content.fault?, Option.or_eq_none_iff]
    by_cases hsection : declarations?.isSome ∧ IsSection tag
    · obtain ⟨declarations, rfl⟩ := Option.isSome_iff_exists.mp hsection.1
      obtain ⟨result, hresult⟩ := exists_readSection? hsection.2 selection declarations body
      rw [readOutside, Option.bind_some, hresult] at h
      obtain ⟨after, rfl, hrest⟩ := exists_ok_of_bind h
      obtain ⟨hfault, hfinal⟩ := ihnext hrest
      refine ⟨⟨fault?_of_readSection? hresult, hfault⟩, ?_⟩
      rw [if_pos hsection, ← List.singleton_append, Declarations.extend_append]
      simpa [eq_extend_of_readSection? hresult] using hfinal
    · rw [readOutside_through hsection] at h
      obtain ⟨after, hafter, hrest⟩ := exists_ok_of_bind h
      obtain ⟨hbody, hcollected⟩ := ihbody hafter
      obtain ⟨hnext, hfinal⟩ := ihnext hrest
      refine ⟨⟨hbody, hnext⟩, ?_⟩
      have hentered : (entered? declarations? tag).getD {} = declarations?.getD {} := by
        unfold entered?
        split <;> rfl
      have hafter? : after.isSome =
          ((entered? declarations? tag).isSome || body.Opens "registry") := by
        rw [Bool.eq_iff_iff, isSome_readOutside hafter]
        simp
      rw [if_neg hsection, Declarations.extend_append, ← isSome_entered?, ← hafter?, hfinal, hcollected,
        hentered]

/-- A document is read if it has no fault, opens its registry element and has only well-formed sections,
and then it declares what its sections declare. -/
theorem readDeclarations_eq_ok_iff {selection : Selection} {content : Content}
    {declarations : Declarations} :
    readDeclarations selection content = .ok declarations ↔
      content.fault? = none ∧ content.Opens "registry" ∧
        (∀ part ∈ sections false content, WellFormed selection part.1 part.2) ∧
          declarations = declarationsOf selection (sections false content) := by
  constructor
  · intro h
    obtain ⟨final, hfinal, hdone⟩ := exists_ok_of_bind h
    obtain ⟨hfault, hcollected⟩ := readOutside_eq_ok hfinal
    have hstopped := stoppedAt_readOutside selection hfault none
    rw [hfinal, stoppedAt, eq_comm, List.head?_eq_none_iff, List.flatMap_eq_nil_iff] at hstopped
    have hopens := isSome_readOutside hfinal
    cases final with
    | none => cases hdone
    | some found =>
      cases hdone
      refine ⟨hfault, by simpa using hopens, fun part hpart => ?_, hcollected⟩
      exact sectionProblems_eq_nil_iff.mp (hstopped part hpart)
  · rintro ⟨hfault, hopens, hwellFormed, rfl⟩
    have hnone : ((sections false content).flatMap fun part =>
        sectionProblems selection part.1 part.2) = [] :=
      List.flatMap_eq_nil_iff.mpr fun part hpart => sectionProblems_eq_nil_iff.mpr (hwellFormed part hpart)
    have hstopped := (stoppedAt_readOutside selection hfault none).trans (congrArg List.head? hnone)
    cases hfinal : readOutside selection none content with
    | error error =>
      rw [hfinal] at hstopped
      cases hstopped
    | ok final =>
      have hcollected := (readOutside_eq_ok hfinal).2
      obtain ⟨found, rfl⟩ := Option.isSome_iff_exists.mp ((isSome_readOutside hfinal).mpr (.inr hopens))
      rw [readDeclarations, hfinal]
      exact congrArg Except.ok hcollected

end RegistryBindings.Registry
