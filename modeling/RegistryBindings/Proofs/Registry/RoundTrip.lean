import RegistryBindings.Proofs.Registry.Document

/-!
# A document that is written can be read

The markup of a document is plain, so what is read is the content that was written. That leaves the
readers of the registry, and each of them is followed through the content it is meant for: a run of
void tags or of elements is visited item by item, and every item is collected.
-/

namespace RegistryBindings.Registry

open Markup Text

namespace Document

/-! ### The markup is plain -/

theorem sublist_names_tag (name : String) (attributes : List (String × Option PlainText)) :
    ((tag name attributes).attributes.map (·.name)).Sublist (attributes.map (·.1)) := by
  induction attributes with
  | nil => exact List.Sublist.slnil
  | cons pair attributes ih =>
    obtain ⟨key, _ | value⟩ := pair
    · exact ih.cons key
    · exact ih.cons_cons key

theorem plain_tag {name : String} {attributes : List (String × Option PlainText)}
    (keys : List String) (hkeys : attributes.map (·.1) = keys) (hname : IsWord name)
    (hwords : ∀ key ∈ keys, IsWord key) (hnodup : keys.Nodup) : (tag name attributes).Plain := by
  subst hkeys
  refine ⟨hname, ?_, (sublist_names_tag name attributes).nodup hnodup⟩
  intro attr hattr
  obtain ⟨⟨key, value?⟩, hmem, hsome⟩ := List.mem_filterMap.mp hattr
  obtain ⟨value, -, rfl⟩ := Option.map_eq_some_iff.mp hsome
  exact ⟨hwords key (List.mem_map_of_mem hmem), value.plain⟩

theorem plain_voids {tags : List Tag} (h : ∀ tag ∈ tags, tag.Plain) : (voids tags).Plain := by
  induction tags with
  | nil => exact trivial
  | cons tag tags ih =>
    exact ⟨h tag List.mem_cons_self, ih fun other hother => h other (List.mem_cons_of_mem tag hother)⟩

theorem plain_elements {children : List (Tag × Content)}
    (h : ∀ child ∈ children, child.1.Plain ∧ child.2.Plain) : (elements children).Plain := by
  induction children with
  | nil => exact trivial
  | cons child children ih =>
    obtain ⟨htag, hbody⟩ := h child List.mem_cons_self
    exact ⟨htag, hbody, ih fun other hother => h other (List.mem_cons_of_mem child hother)⟩

theorem plain_withText {characters : List Char} {content : Content}
    (hplain : ∀ c ∈ characters, isPlain c = true) (h : content.Plain) :
    (withText characters content).Plain := by
  cases characters with
  | nil => exact h
  | cons c characters =>
    cases content with
    | text more next =>
      obtain ⟨-, hmore, htext, hnext⟩ := h
      refine ⟨by simp, ?_, htext, hnext⟩
      intro d hd
      rcases List.mem_append.mp hd with hd | hd
      · exact hplain d hd
      · exact hmore d hd
    | failed => exact h.elim
    | done => exact ⟨List.cons_ne_nil c characters, hplain, rfl, h⟩
    | void => exact ⟨List.cons_ne_nil c characters, hplain, rfl, h⟩
    | element => exact ⟨List.cons_ne_nil c characters, hplain, rfl, h⟩

theorem plain_enumTag (item : EnumItem) : item.tag.Plain :=
  plain_tag ["name", "value", "api", "group"] rfl (by decide) (by decide) (by decide)

theorem plain_nameTag (name : String) (value : PlainText) (hname : IsWord name) :
    (tag name [("name", some value)]).Plain :=
  plain_tag ["name"] rfl hname (by decide) (by decide)

theorem plain_bareTag (name : String) (hname : IsWord name) : (tag name []).Plain :=
  plain_tag [] rfl hname (by decide) (by decide)

theorem plain_listing (item : ListingItem) : item.element.1.Plain ∧ item.element.2.Plain := by
  refine ⟨plain_nameTag _ _ (by decide), plain_voids ?_⟩
  intro tag htag
  obtain ⟨member, -, rfl⟩ := List.mem_map.mp htag
  exact plain_nameTag _ _ (by decide)

theorem plain_declarator {name : String} (hname : IsWord name) (declarator : Declarator) :
    (declarator.element name).1.Plain ∧ (declarator.element name).2.Plain := by
  have htext (text : PlainText) {content : Content} (h : content.Plain) :
      (withText text.text.toList content).Plain := plain_withText text.plain h
  have hnamed : (Content.element (tag "name" [])
      (withText declarator.name.text.toList .done) .done).Plain :=
    ⟨plain_bareTag _ (by decide), htext declarator.name.toPlainText trivial, trivial⟩
  refine ⟨plain_tag ["group"] rfl hname (by decide) (by decide), ?_⟩
  change declarator.content.Plain
  rw [Declarator.content]
  apply htext
  split
  · exact htext _ hnamed
  · exact ⟨plain_bareTag _ (by decide), htext _ trivial, htext _ hnamed⟩

theorem plain_command (item : CommandItem) : item.element.1.Plain ∧ item.element.2.Plain := by
  refine ⟨plain_bareTag _ (by decide), plain_elements ?_⟩
  intro child hchild
  rcases List.mem_cons.mp hchild with rfl | hchild
  · exact plain_declarator (by decide) item.proto
  · obtain ⟨parameter, -, rfl⟩ := List.mem_map.mp hchild
    exact plain_declarator (by decide) parameter

theorem plain_block (block : Block) : block.element.1.Plain ∧ block.element.2.Plain := by
  refine ⟨plain_tag ["profile", "api"] rfl ?_ (by decide) (by decide), plain_voids ?_⟩
  · cases block.kind <;> decide
  · intro tag htag
    obtain ⟨item, -, rfl⟩ := List.mem_map.mp htag
    cases item <;> exact plain_nameTag _ _ (by decide)

theorem plain_blocks (blocks : List Block) : (elements (blocks.map Block.element)).Plain := by
  apply plain_elements
  intro child hchild
  obtain ⟨block, -, rfl⟩ := List.mem_map.mp hchild
  exact plain_block block

theorem plain_section (part : Section) : part.element.1.Plain ∧ part.element.2.Plain := by
  cases part with
  | enums space? group? items =>
    refine ⟨plain_tag ["namespace", "group"] rfl (by decide) (by decide) (by decide), plain_voids ?_⟩
    intro tag htag
    obtain ⟨item, -, rfl⟩ := List.mem_map.mp htag
    exact plain_enumTag item
  | groups listings =>
    refine ⟨plain_bareTag _ (by decide), plain_elements ?_⟩
    intro child hchild
    obtain ⟨listing, -, rfl⟩ := List.mem_map.mp hchild
    exact plain_listing listing
  | commands items =>
    refine ⟨plain_bareTag _ (by decide), plain_elements ?_⟩
    intro child hchild
    obtain ⟨item, -, rfl⟩ := List.mem_map.mp hchild
    exact plain_command item
  | feature api name number blocks =>
    exact ⟨plain_tag ["api", "name", "number"] rfl (by decide) (by decide) (by decide),
      plain_blocks blocks⟩
  | extension name supported blocks =>
    exact ⟨plain_tag ["name", "supported"] rfl (by decide) (by decide) (by decide),
      plain_blocks blocks⟩

theorem plain_content (document : Document) : document.content.Plain := by
  refine ⟨plain_bareTag _ (by decide), plain_elements ?_, trivial⟩
  intro child hchild
  obtain ⟨part, -, rfl⟩ := List.mem_map.mp hchild
  exact plain_section part

theorem ofText_render (document : Document) : Content.ofText document.render = document.content :=
  ofText_write_content document.plain_content rfl

/-! ### Visiting what was written

Each item may add one entry to what was collected, and the visitor's state is some function of that. -/

section Visiting

variable {σ α β : Type} {visitor : Visitor σ} (initial : σ) (state : List β → σ)
  (collect : α → Option β)

theorem filterMap_cons_append (found : List β) (x : α) (xs : List α) :
    found ++ (x :: xs).filterMap collect = found ++ (collect x).toList ++ xs.filterMap collect := by
  cases h : collect x <;> simp [h]

theorem visit_voids {written : α → Tag} (hinitial : state [] = initial)
    (h : ∀ found x,
      visitor.void (state found) (written x) = .ok (state (found ++ (collect x).toList)))
    (xs : List α) :
    visitor.visit initial (voids (xs.map written)) = .ok (state (xs.filterMap collect)) := by
  have hrun (found : List β) : visitor.visit (state found) (voids (xs.map written)) =
      .ok (state (found ++ xs.filterMap collect)) := by
    induction xs generalizing found with
    | nil =>
      rw [List.filterMap_nil, List.append_nil]
      rfl
    | cons x xs ih =>
      change (visitor.void (state found) (written x) >>= fun state =>
        visitor.visit state (voids (xs.map written))) = _
      rw [h, filterMap_cons_append]
      exact ih (found ++ (collect x).toList)
  rw [← hinitial]
  exact hrun []

theorem visit_elements {written : α → Tag × Content} (hinitial : state [] = initial)
    (h : ∀ found x, visitor.element (state found) (written x).1 (written x).2 =
      .ok (state (found ++ (collect x).toList)))
    (xs : List α) :
    visitor.visit initial (elements (xs.map written)) = .ok (state (xs.filterMap collect)) := by
  have hrun (found : List β) : visitor.visit (state found) (elements (xs.map written)) =
      .ok (state (found ++ xs.filterMap collect)) := by
    induction xs generalizing found with
    | nil =>
      rw [List.filterMap_nil, List.append_nil]
      rfl
    | cons x xs ih =>
      change (visitor.element (state found) (written x).1 (written x).2 >>= fun state =>
        visitor.visit state (elements (xs.map written))) = _
      rw [h, filterMap_cons_append]
      exact ih (found ++ (collect x).toList)
  rw [← hinitial]
  exact hrun []

end Visiting

/-! ### The attributes that were written -/

theorem value?_tag_cons (name key : String) (value? : Option PlainText)
    (rest : List (String × Option PlainText)) (wanted : String) :
    (tag name ((key, value?) :: rest)).value? wanted =
      if key = wanted then (value?.map (·.text)).or ((tag name rest).value? wanted)
      else (tag name rest).value? wanted := by
  cases value? with
  | none => simp [tag, Tag.value?]
  | some value =>
    by_cases h : key = wanted
    · simp [tag, Tag.value?, h]
    · simp [tag, Tag.value?, h]

theorem value?_tag_nil (name wanted : String) : (tag name []).value? wanted = none :=
  rfl

theorem requiredAttribute_eq_ok {tag : Tag} {name value : String} (h : tag.value? name = some value) :
    requiredAttribute tag name = .ok value := by
  rw [requiredAttribute, h]

theorem readEnum_item (selection : Selection) (space? group? : Option PlainText) (item : EnumItem) :
    readEnum selection (tag "enums" [("namespace", space?), ("group", group?)]) item.tag =
      .ok (item.declaration? selection space? group?) := by
  have hname : item.tag.value? "name" = some item.name.text := by simp [EnumItem.tag, value?_tag_cons]
  have hvalue : item.tag.value? "value" = some item.value.text := by
    simp [EnumItem.tag, value?_tag_cons]
  have hapi : item.tag.value? "api" = item.api?.map (·.text) := by
    simp [EnumItem.tag, value?_tag_cons, value?_tag_nil]
  have hgroup : item.tag.value? "group" = item.group?.map (·.text) := by
    simp [EnumItem.tag, value?_tag_cons, value?_tag_nil]
  have hblock : (tag "enums" [("namespace", space?), ("group", group?)]).value? "namespace" =
      space?.map (·.text) := by
    simp [value?_tag_cons, value?_tag_nil]
  have hblockGroup : (tag "enums" [("namespace", space?), ("group", group?)]).value? "group" =
      group?.map (·.text) := by
    simp [value?_tag_cons, value?_tag_nil]
  have hadmits : selection.admitsApi (item.api?.map (·.text)) = true ↔
      ∀ api ∈ item.api?, api.text ∈ selection.apis := by
    rw [Selection.admitsApi_iff]
    cases item.api? <;> simp
  rw [readEnum, hapi, EnumItem.declaration?]
  by_cases hselected : ∀ api ∈ item.api?, api.text ∈ selection.apis
  · rw [if_pos (hadmits.mpr hselected), if_pos hselected, requiredAttribute_eq_ok hname,
      requiredAttribute_eq_ok hvalue, hblock, hblockGroup, hgroup, Option.isSome_map, ← shortName_eq_firstRest]
    cases item.group? with
    | none => rfl
    | some group =>
      simp only [← listItems_text]
      rfl
  · rw [if_neg fun h => hselected (hadmits.mp h), if_neg hselected]
    rfl

/-! ### The sections are collected -/

def Section.collect (selection : Selection) (declarations : Declarations) (part : Section) :
    Declarations where
  enums := (part.enumDeclarations selection).foldl .add declarations.enums
  listings := declarations.listings ++ part.listings
  commands := part.commandDeclarations.foldl .add declarations.commands
  features := declarations.features ++ part.features
  extensions := declarations.extensions ++ part.extensions

theorem requiredAttribute_name (name : String) (value : PlainText)
    (rest : List (String × Option PlainText)) :
    requiredAttribute (tag name (("name", some value) :: rest)) "name" = .ok value.text :=
  requiredAttribute_eq_ok (by simp [value?_tag_cons])

theorem visit_enums (selection : Selection) (declarations : Declarations)
    (space? group? : Option PlainText) (items : List EnumItem) :
    (enumVisitor selection (tag "enums" [("namespace", space?), ("group", group?)])).visit
        declarations (voids (items.map EnumItem.tag)) =
      .ok (Section.collect selection declarations (.enums space? group? items)) := by
  rw [visit_voids declarations
    (fun found => { declarations with enums := found.foldl .add declarations.enums })
    (fun item => item.declaration? selection space? group?) rfl]
  · simp [Section.collect]
  · intro found item
    have hname : item.tag.name = "enum" := rfl
    simp only [enumVisitor, Visitor.items, hname, if_true, readEnum_item]
    cases item.declaration? selection space? group? with
    | none => simp only [Option.toList_none, List.append_nil]; rfl
    | some declaration =>
      simp only [Option.toList_some, List.foldl_append, List.foldl_cons, List.foldl_nil]
      rfl

theorem readListing_content (item : ListingItem) :
    readListing item.element.1 item.element.2 = .ok item.listing := by
  have hmembers : memberVisitor.visit [] item.element.2 =
      .ok (item.members.map (·.text)) := by
    rw [← List.filterMap_eq_map]
    refine visit_voids [] id (some ∘ (·.text)) rfl ?_ item.members
    intro found member
    change (requiredAttribute (tag "enum" [("name", some member)]) "name" >>= fun name => _) = _
    rw [requiredAttribute_name]
    rfl
  have hname : requiredAttribute item.element.1 "name" = .ok item.name.text :=
    requiredAttribute_name _ _ _
  rw [readListing, hname, hmembers]
  rfl

theorem visit_groups (selection : Selection) (declarations : Declarations)
    (listings : List ListingItem) :
    listingVisitor.visit declarations (elements (listings.map ListingItem.element)) =
      .ok (Section.collect selection declarations (.groups listings)) := by
  rw [visit_elements declarations
    (fun found => { declarations with listings := declarations.listings ++ found })
    (fun item => some item.listing) (by rw [List.append_nil])]
  · simp [Section.collect]
  · intro found item
    change (readListing item.element.1 item.element.2 >>= fun listing => _) = _
    rw [readListing_content, Option.toList_some, ← List.append_assoc]
    rfl

theorem visit_items (block : Block) :
    itemVisitor.visit ({ block with items := [] } : Block).interfaceBlock
        (voids (block.items.map BlockItem.tag)) =
      .ok block.interfaceBlock := by
  rw [visit_voids ({ block with items := [] } : Block).interfaceBlock
    (fun found => ({ block with items := found } : Block).interfaceBlock) some rfl,
    List.filterMap_some]
  intro found item
  cases item with
  | enum name =>
    change (requiredAttribute (tag "enum" [("name", some name)]) "name" >>= fun name => _) = _
    rw [requiredAttribute_name, Option.toList_some]
    simp only [Block.interfaceBlock, List.filterMap_append]
    simp [BlockItem.enum?, BlockItem.command?]
  | command name =>
    change (requiredAttribute (tag "command" [("name", some name)]) "name" >>= fun name => _) = _
    rw [requiredAttribute_name, Option.toList_some]
    simp only [Block.interfaceBlock, List.filterMap_append]
    simp [BlockItem.enum?, BlockItem.command?]

theorem readBlock_content (block : Block) :
    readBlock block.kind block.element.1 block.element.2 = .ok block.interfaceBlock := by
  have hprofile : block.element.1.value? "profile" = block.profile?.map (·.text) := by
    simp [Block.element, value?_tag_cons, value?_tag_nil]
  have hapi : block.element.1.value? "api" = block.api?.map (·.text) := by
    simp [Block.element, value?_tag_cons, value?_tag_nil]
  rw [readBlock, hprofile, hapi]
  exact visit_items block

theorem visit_blocks (blocks : List Block) :
    blockVisitor.visit [] (elements (blocks.map Block.element)) =
      .ok (blocks.map Block.interfaceBlock) := by
  rw [← List.filterMap_eq_map (f := Block.interfaceBlock)]
  refine visit_elements [] id (some ∘ Block.interfaceBlock) rfl ?_ blocks
  intro found block
  have hread := readBlock_content block
  obtain ⟨kind, profile?, api?, items⟩ := block
  cases kind with
  | require =>
    change ((readBlock .require _ _ >>= fun block => _) : Except ReadError _) = _
    rw [hread]
    rfl
  | remove =>
    change ((readBlock .remove _ _ >>= fun block => _) : Except ReadError _) = _
    rw [hread]
    rfl

theorem readFeature_content (api name number : PlainText) (blocks : List Block) :
    readFeature (Section.feature api name number blocks).element.1
        (Section.feature api name number blocks).element.2 =
      .ok ⟨api.text, name.text, number.text, blocks.map Block.interfaceBlock⟩ := by
  have hapi : requiredAttribute (Section.feature api name number blocks).element.1 "api" =
      .ok api.text := requiredAttribute_eq_ok (by simp [Section.element, value?_tag_cons])
  have hname : requiredAttribute (Section.feature api name number blocks).element.1 "name" =
      .ok name.text := requiredAttribute_eq_ok (by simp [Section.element, value?_tag_cons])
  have hnumber : (Section.feature api name number blocks).element.1.value? "number" =
      some number.text := by simp [Section.element, value?_tag_cons]
  rw [readFeature, hapi, hname, hnumber]
  change (blockVisitor.visit [] (elements (blocks.map Block.element)) >>= fun blocks => _) = _
  rw [visit_blocks]
  rfl

theorem listItems_joined (parts : List PlainText) :
    listItems '|' (PlainText.joined parts).text = parts.flatMap (namesIn '|') := by
  have hparts := listItems_intercalate '|' (parts.map (·.text))
  rw [List.map_map, List.flatMap_map] at hparts
  exact hparts.trans (List.flatMap_congr fun part _ => listItems_text '|' part)

theorem readExtension_content (name : PlainText) (supported : List PlainText) (blocks : List Block) :
    readExtension (Section.extension name supported blocks).element.1
        (Section.extension name supported blocks).element.2 =
      .ok ⟨name.text, supported.flatMap (namesIn '|'), blocks.map Block.interfaceBlock⟩ := by
  have hname : requiredAttribute (Section.extension name supported blocks).element.1 "name" =
      .ok name.text := requiredAttribute_eq_ok (by simp [Section.element, value?_tag_cons])
  have hsupported : (Section.extension name supported blocks).element.1.value? "supported" =
      some (PlainText.joined supported).text := by simp [Section.element, value?_tag_cons]
  rw [readExtension, hname, hsupported, Option.map_some, listItems_joined]
  change (blockVisitor.visit [] (elements (blocks.map Block.element)) >>= fun blocks => _) = _
  rw [visit_blocks]
  rfl

/-! ### Declarations of commands and parameters -/

theorem visit_withText {σ : Type} {visitor : Visitor σ} (hnil : ∀ state, visitor.text state [] = state)
    (happend : ∀ state text more,
      visitor.text (visitor.text state text) more = visitor.text state (text ++ more))
    (state : σ) (text : List Char) (content : Content) :
    visitor.visit state (withText text content) = visitor.visit (visitor.text state text) content := by
  cases text with
  | nil =>
    rw [hnil]
    rfl
  | cons c text =>
    cases content with
    | text more next =>
      change visitor.visit (visitor.text state (c :: text ++ more)) next =
        visitor.visit (visitor.text (visitor.text state (c :: text)) more) next
      rw [happend]
    | done => rfl
    | failed fault => rfl
    | void tag next => rfl
    | element tag body next => rfl

theorem visit_text (text : List Char) : textVisitor.visit [] (withText text .done) = .ok text :=
  visit_withText (fun state => List.append_nil state) (fun state text more => List.append_assoc state text more)
    [] text .done

theorem addSpelling_nil (declaration : PartialDeclaration) : declaration.addSpelling [] = declaration := by
  unfold PartialDeclaration.addSpelling
  split
  · rw [List.append_nil]
  · rfl

theorem addSpelling_append (declaration : PartialDeclaration) (text more : List Char) :
    (declaration.addSpelling text).addSpelling more = declaration.addSpelling (text ++ more) := by
  unfold PartialDeclaration.addSpelling
  split
  · simp_all
  · simp_all

def Declarator.spelling (declarator : Declarator) : List Char :=
  match declarator.ptype? with
  | none => declarator.before.text.toList ++ declarator.after.text.toList
  | some ptype =>
    declarator.before.text.toList ++
      ' ' :: (ptype.text.toList ++ ' ' :: declarator.after.text.toList)

theorem words_spelling (declarator : Declarator) : words declarator.spelling = declarator.words := by
  obtain ⟨group?, before, ptype?, after, name⟩ := declarator
  cases ptype? with
  | none =>
    simp only [Declarator.spelling, Declarator.words, Declarator.texts, List.flatMap_singleton]
    exact words_eq_splitOnP _
  | some ptype =>
    simp only [Declarator.spelling, Declarator.words, Declarator.texts, List.flatMap_cons, List.flatMap_nil,
      ← words_eq_splitOnP, List.append_nil]
    rw [words_append_blank (by decide), words_append_blank (by decide)]

theorem visit_declarator (declarator : Declarator) :
    declarationVisitor.visit {} declarator.content =
      .ok { spelling := declarator.spelling, name? := some declarator.name.text.toList } := by
  have hname (declaration : PartialDeclaration) :
      declarationVisitor.visit declaration (.element (tag "name" [])
          (withText declarator.name.text.toList .done) .done) =
        .ok { declaration with name? := some declarator.name.text.toList } := by
    change ((textVisitor.visit [] (withText declarator.name.text.toList .done) >>= fun name =>
      Except.ok { declaration with name? := some (trim name) }) >>= Except.ok) = _
    rw [visit_text]
    change Except.ok { declaration with name? := some (trim declarator.name.text.toList) } = _
    rw [trim_of_isTrimmed declarator.name.trimmed]
  have hptype (declaration : PartialDeclaration) (ptype : PlainText) (next : Content) :
      declarationVisitor.visit declaration (.element (tag "ptype" [])
          (withText ptype.text.toList .done) next) =
        declarationVisitor.visit (declaration.addSpelling ([' '] ++ ptype.text.toList ++ [' '])) next := by
    change ((textVisitor.visit [] (withText ptype.text.toList .done) >>= fun text =>
      Except.ok (declaration.addSpelling ([' '] ++ text ++ [' ']))) >>= fun state => _) = _
    rw [visit_text]
    rfl
  have hspelling : declarationVisitor.text = PartialDeclaration.addSpelling := rfl
  rw [Declarator.content, visit_withText addSpelling_nil addSpelling_append, hspelling]
  obtain ⟨group?, before, ptype?, after, name⟩ := declarator
  cases ptype? with
  | none =>
    change declarationVisitor.visit _ (withText after.text.toList _) = _
    rw [visit_withText addSpelling_nil addSpelling_append, hspelling, addSpelling_append]
    exact hname _
  | some ptype =>
    refine (hptype _ ptype _).trans ?_
    rw [visit_withText addSpelling_nil addSpelling_append, hspelling, addSpelling_append,
      addSpelling_append]
    refine (hname _).trans ?_
    simp [PartialDeclaration.addSpelling, Declarator.spelling]

theorem readDeclaration_element (name : String) (declarator : Declarator) :
    readDeclaration (declarator.element name).1 (declarator.element name).2 =
      .ok (declarator.name.text, declarator.type) := by
  have hgroup : (declarator.element name).1.value? "group" = declarator.group?.map (·.text) := by
    simp [Declarator.element, value?_tag_cons, value?_tag_nil]
  have hcontent : (declarator.element name).2 = declarator.content := rfl
  rw [readDeclaration, hcontent, visit_declarator]
  change Except.ok (String.ofList declarator.name.text.toList,
    (⟨String.ofList (collapse declarator.spelling), (declarator.element name).1.value? "group"⟩ :
      TypeRef)) = _
  rw [hgroup, collapse, words_spelling, String.ofList_toList]
  rfl

theorem readCommand_content (item : CommandItem) : readCommand item.element.2 = .ok item.command := by
  have hparameters : partVisitor.visit { proto? := some (item.proto.name.text, item.proto.type) }
      (elements (item.parameters.map (Declarator.element "param"))) =
        .ok { proto? := some (item.proto.name.text, item.proto.type)
              parameters := item.parameters.map Declarator.parameter } := by
    rw [← List.filterMap_eq_map (f := Declarator.parameter)]
    refine visit_elements _
      (fun found => (
        { proto? := some (item.proto.name.text, item.proto.type), parameters := found } :
          PartialCommand))
      (some ∘ Declarator.parameter) rfl ?_ item.parameters
    intro found parameter
    change (readDeclaration (parameter.element "param").1 (parameter.element "param").2 >>=
      fun declared => _) = _
    rw [readDeclaration_element]
    rfl
  have hparts : partVisitor.visit {} item.element.2 =
      .ok { proto? := some (item.proto.name.text, item.proto.type)
            parameters := item.parameters.map Declarator.parameter } := by
    change ((readDeclaration (item.proto.element "proto").1 (item.proto.element "proto").2 >>=
      fun declared => _) >>= fun state => _) = _
    rw [readDeclaration_element]
    exact hparameters
  rw [readCommand, hparts]
  rfl

theorem visit_commands (selection : Selection) (declarations : Declarations)
    (items : List CommandItem) :
    commandVisitor.visit declarations (elements (items.map CommandItem.element)) =
      .ok (Section.collect selection declarations (.commands items)) := by
  rw [visit_elements declarations
    (fun found => { declarations with commands := found.foldl .add declarations.commands })
    (some ∘ CommandItem.command) rfl, List.filterMap_eq_map]
  · simp [Section.collect]
  · intro found item
    change (readCommand item.element.2 >>= fun command => _) = _
    rw [readCommand_content, List.foldl_append]
    rfl

/-! ### A whole document -/

theorem readSection?_section (selection : Selection) (declarations : Declarations) (part : Section) :
    readSection? selection declarations part.element.1 part.element.2 =
      some (.ok (part.collect selection declarations)) := by
  cases part with
  | enums space? group? items =>
    exact congrArg some (visit_enums selection declarations space? group? items)
  | groups listings => exact congrArg some (visit_groups selection declarations listings)
  | commands items => exact congrArg some (visit_commands selection declarations items)
  | feature api name number blocks =>
    refine congrArg some (?_ : (readFeature _ _ >>= fun feature => _) = _)
    rw [readFeature_content]
    simp [Section.collect, Declarations.addFeature, bind, Except.bind, pure, Except.pure]
  | extension name supported blocks =>
    refine congrArg some (?_ : (readExtension _ _ >>= fun extension => _) = _)
    rw [readExtension_content]
    simp [Section.collect, Declarations.addExtension, bind, Except.bind, pure, Except.pure]

theorem readOutside_sections (selection : Selection) (sections : List Section)
    (declarations : Declarations) :
    readOutside selection (some declarations) (elements (sections.map Section.element)) =
      .ok (some (sections.foldl (Section.collect selection) declarations)) := by
  induction sections generalizing declarations with
  | nil => rfl
  | cons part sections ih =>
    change readOutside selection (some declarations) (.element part.element.1 part.element.2 _) = _
    rw [readOutside, Option.bind_some, readSection?_section]
    exact ih (part.collect selection declarations)

theorem foldl_collect (selection : Selection) (sections : List Section) (declarations : Declarations) :
    sections.foldl (Section.collect selection) declarations =
      { enums := (sections.flatMap (·.enumDeclarations selection)).foldl .add declarations.enums
        listings := declarations.listings ++ sections.flatMap (·.listings)
        commands := (sections.flatMap (·.commandDeclarations)).foldl .add declarations.commands
        features := declarations.features ++ sections.flatMap (·.features)
        extensions := declarations.extensions ++ sections.flatMap (·.extensions) } := by
  induction sections generalizing declarations with
  | nil => simp
  | cons part sections ih =>
    rw [List.foldl_cons, ih]
    simp only [Section.collect, List.flatMap_cons, List.foldl_append, List.append_assoc]

theorem readDeclarations_render (document : Document) (selection : Selection) :
    readDeclarations selection (Content.ofText document.render) =
      .ok (document.declarations selection) := by
  have houtside : readOutside selection none document.content =
      .ok (some (document.declarations selection)) := by
    change ((readOutside selection (some {}) (elements (document.sections.map Section.element))) >>=
      fun declarations? => Except.ok declarations?) = _
    rw [readOutside_sections, foldl_collect]
    rfl
  rw [ofText_render, readDeclarations, houtside]
  rfl

/-- Reading a document that was written succeeds, whatever is selected, and collects what is in it. -/
theorem read_render (document : Document) (selection : Selection) :
    ∃ declarations,
      readDeclarations selection (Content.ofText document.render) = .ok declarations ∧
        document.Collects selection declarations ∧
          read document.render selection = .ok (declarations.registry selection) := by
  refine ⟨document.declarations selection, readDeclarations_render document selection,
    collects_declarations document selection, ?_⟩
  rw [read, readDeclarations_render]
  rfl

/-- A command with a type of two words and an asterisk, an enumerant that names two groups, and an extension of two
interfaces. -/
def vendorQuery : Document where
  sections := [
    .enums (some (plainText "GL" (by decide))) none
      [{ name := plainText "GL_VENDOR" (by decide), value := plainText "0x1F00" (by decide)
         group? := some (plainText "Name, Query" (by decide)) }],
    .commands
      [{ proto :=
          { before := plainText "const " (by decide)
            ptype? := some (plainText "GLubyte" (by decide))
            after := plainText " *" (by decide)
            name := ⟨plainText "glGetString" (by decide), by decide⟩ }
         parameters := [] }],
    .extension (plainText "GL_EXT" (by decide)) [plainText "gles1" (by decide), plainText "gles2" (by decide)]
      [{ kind := .require, items := [.command (plainText "glGetString" (by decide))] }]]

theorem read_render_vendorQuery :
    vendorQuery.render = String.ofList (
        ["<registry>", "<enums namespace=\"GL\">", "<enum name=\"GL_VENDOR\" value=\"0x1F00\"",
          " group=\"Name, Query\"/>", "</enums>", "<commands><command>", "<proto>const <ptype>GLubyte</ptype> *",
          "<name>glGetString</name></proto>", "</command></commands>", "<extension name=\"GL_EXT\"",
          " supported=\"gles1|gles2\">", "<require>", "<command name=\"glGetString\"/>", "</require></extension>",
          "</registry>"].flatMap String.toList) ∧
      ∃ declarations, readDeclarations {} (Content.ofText vendorQuery.render) = .ok declarations ∧
        declarations.enums.find? "GL_VENDOR" = some ⟨⟨"GL_VENDOR", "VENDOR", "0x1F00"⟩, ["Name", "Query"], false⟩ ∧
        declarations.commands.find? "glGetString" = some ⟨"glGetString", ⟨"const GLubyte *", none⟩, []⟩ ∧
        declarations.extensions = [⟨"GL_EXT", ["gles1", "gles2"], [⟨.require, none, none, [], ["glGetString"]⟩]⟩] := by
  obtain ⟨declarations, hread, hcollects, -⟩ := read_render vendorQuery {}
  have hitem : ∀ part ∈ vendorQuery.sections, ∀ api ∈ part.supported, IsItem '|' api.text := by
    simp only [vendorQuery, Section.supported, List.forall_mem_cons]
    refine ⟨List.forall_mem_nil _, List.forall_mem_nil _, ⟨?_, ?_, List.forall_mem_nil _⟩, List.forall_mem_nil _⟩
    · exact ⟨by decide, by decide, by decide⟩
    · exact ⟨by decide, by decide, by decide⟩
  refine ⟨congrArg String.ofList ?_, declarations, hread, ?_, ?_, hcollects.extensions_of_isItem hitem⟩
  · decide +kernel
  · rw [hcollects.find?_enum]
    decide +kernel
  · rw [hcollects.find?_command]
    decide +kernel

end Document

end RegistryBindings.Registry
