import RegistryBindings.Proofs.Registry.Acceptance
import RegistryBindings.Proofs.Registry.RoundTrip
import RegistryBindings.Proofs.Registry.Trimming

/-!
# Elements without content

An element without content can be written as one void tag or as a start tag and an end tag. A reader passes
over a void tag unless the element is known by its tag alone, so void elements that have content of their
own to be read count as absent. For most of them that makes no difference: with nothing in them they declare
nothing. It does for those that `Counts` lists, whose spelling matters.

`Respelled` relates documents in which void elements are opened where that makes no difference, or are left
out. By `read_eq_of_respelled` the result is the same, and so is the error. Readers are compared through
what matters of their states, which is all of it except where they collect something that may be empty.
-/

namespace RegistryBindings.Registry

open Markup

/-! ### Two spellings of one document -/

def structuralNames : List String :=
  ["registry", "enums", "groups", "group", "commands", "command", "proto", "param", "name", "feature",
    "extension", "require", "remove"]

theorem name_ne_of_mem {tag : Tag} {name : String} (h : tag.name ∈ structuralNames)
    (hname : name ∉ structuralNames) : tag.name ≠ name := by
  rintro rfl
  exact hname h

/-- Whether an element stands for a command that its parent names. -/
def IsItem (parent : String) (tag : Tag) : Prop :=
  tag.name = "command" ∧ (parent = "require" ∨ parent = "remove")

/-- Whether an element means something if it is opened and has no content. -/
def Counts (selection : Selection) (parent : String) (tag : Tag) : Prop :=
  tag.name = "registry" ∨
  (tag.name = "feature" ∧ ¬ (tag.Has "name" ∧ ∃ api ∈ tag.value? "api", api ∉ selection.apis)) ∨
  (tag.name = "extension" ∧ ¬ tag.Has "name") ∨
  (parent = "groups" ∧ tag.name = "group" ∧ ¬ tag.Has "name") ∨
  (parent = "commands" ∧ tag.name = "command") ∨
  (parent = "command" ∧ (tag.name = "proto" ∨ tag.name = "param")) ∨
  ((parent = "proto" ∨ parent = "param") ∧ tag.name = "name")

/-- The second content is the first one with some void elements opened, if they do not count, and some left
out. Where one is left out between texts, the texts become one. -/
inductive Respelled (selection : Selection) : String → Content → Content → Prop
  | done {parent : String} : Respelled selection parent .done .done
  | failed {parent : String} (fault : Fault) : Respelled selection parent (.failed fault) (.failed fault)
  | text {parent : String} (characters : List Char) {next next' : Content}
    (hnext : Respelled selection parent next next') :
    Respelled selection parent (.text characters next) (.text characters next')
  | void {parent : String} (tag : Tag) {next next' : Content}
    (hnext : Respelled selection parent next next') :
    Respelled selection parent (.void tag next) (.void tag next')
  | element {parent : String} (tag : Tag) {body body' next next' : Content}
    (hbody : Respelled selection tag.name body body') (hnext : Respelled selection parent next next') :
    Respelled selection parent (.element tag body next) (.element tag body' next')
  | opened {parent : String} {tag : Tag} {next next' : Content} (hname : tag.name ∈ structuralNames)
    (hcounts : ¬ Counts selection parent tag) (hnext : Respelled selection parent next next') :
    Respelled selection parent (.void tag next) (.element tag .done next')
  | leftOut {parent : String} {tag : Tag} {next next' : Content} (hname : tag.name ∈ structuralNames)
    (hitem : ¬ IsItem parent tag) (hnext : Respelled selection parent next next') :
    Respelled selection parent (.void tag next) next'
  | leftOutBetween {parent : String} {tag : Tag} {characters more : List Char} {next next' : Content}
    (hname : tag.name ∈ structuralNames) (hitem : ¬ IsItem parent tag)
    (hnext : Respelled selection parent (.text (characters ++ more) next) next') :
    Respelled selection parent (.text characters (.void tag (.text more next))) next'

theorem Respelled.fault?_eq {selection : Selection} {parent : String} {content other : Content}
    (h : Respelled selection parent content other) : content.fault? = other.fault? := by
  induction h with
  | done => rfl
  | failed fault => rfl
  | text characters _ ih => exact ih
  | void tag _ ih => exact ih
  | element tag _ _ ihbody ihnext => rw [Content.fault?, ihbody, ihnext, Content.fault?]
  | opened _ _ _ ih => rw [Content.fault?, ih, Content.fault?, Content.fault?, Option.none_or]
  | leftOut _ _ _ ih => rw [Content.fault?, ih]
  | leftOutBetween _ _ _ ih => rw [← ih]; rfl

theorem Respelled.skip_eq {selection : Selection} {parent : String} {content other : Content}
    (h : Respelled selection parent content other) : skip content = skip other := by
  rw [skip, skip, h.fault?_eq]

/-! ### Results that are alike -/

section Alike

variable {α β σ τ : Type}

/-- The same error, or values of which the same matters. -/
def Alike (matter : α → β) (first second : Except ReadError α) : Prop :=
  first.map matter = second.map matter

theorem Alike.ok {matter : α → β} {a b : α} (h : matter a = matter b) : Alike matter (.ok a) (.ok b) :=
  congrArg Except.ok h

theorem Alike.bind {matter : α → β} {matter' : σ → τ} {first second : Except ReadError α}
    {next next' : α → Except ReadError σ} (h : Alike matter first second)
    (hnext : ∀ a b, matter a = matter b → Alike matter' (next a) (next' b)) :
    Alike matter' (first >>= next) (second >>= next') := by
  cases first with
  | error error =>
    cases second with
    | error other =>
      cases h
      rfl
    | ok b => cases h
  | ok a =>
    cases second with
    | error error => cases h
    | ok b => exact hnext a b (Except.ok.inj h)

theorem Alike.bind_ok {matter : α → β} {first : Except ReadError σ} {f g : σ → α}
    (h : ∀ x, matter (f x) = matter (g x)) :
    Alike matter (first >>= fun x => .ok (f x)) (first >>= fun x => .ok (g x)) := by
  cases first with
  | error error => rfl
  | ok x => exact .ok (h x)

theorem alike_id_iff {first second : Except ReadError α} : Alike id first second ↔ first = second := by
  rw [Alike, Except.map_id]
  rfl

end Alike

/-! ### Visiting either spelling -/

section Visiting

variable {σ τ : Type} {selection : Selection} {parent : String}

/-- What a visitor has to do for two spellings of an element's content to be visited alike. -/
structure Visitor.Respects (selection : Selection) (parent : String) (visitor : Visitor σ)
    (matter : σ → τ) : Prop where
  text : ∀ a b characters, matter a = matter b →
    matter (visitor.text a characters) = matter (visitor.text b characters)
  text_append : ∀ state text more,
    visitor.text (visitor.text state text) more = visitor.text state (text ++ more)
  void : ∀ a b tag, matter a = matter b → Alike matter (visitor.void a tag) (visitor.void b tag)
  leftOut : ∀ state tag, tag.name ∈ structuralNames → ¬ IsItem parent tag →
    visitor.void state tag = .ok state
  opened : ∀ a b tag, tag.name ∈ structuralNames → ¬ Counts selection parent tag → matter a = matter b →
    Alike matter (visitor.void a tag) (visitor.element b tag .done)
  element : ∀ a b tag body body', Respelled selection tag.name body body' → matter a = matter b →
    Alike matter (visitor.element a tag body) (visitor.element b tag body')

theorem Visitor.Respects.visit {visitor : Visitor σ} {matter : σ → τ} {content other : Content}
    (hvisitor : visitor.Respects selection parent matter) (h : Respelled selection parent content other)
    {a b : σ} (hstate : matter a = matter b) :
    Alike matter (visitor.visit a content) (visitor.visit b other) := by
  induction h generalizing a b with
  | done => exact .ok hstate
  | failed fault => rfl
  | text characters _ ih => exact ih hvisitor (hvisitor.text a b characters hstate)
  | void tag _ ih => exact (hvisitor.void a b tag hstate).bind fun _ _ => ih hvisitor
  | element tag hbody _ _ ih =>
    exact (hvisitor.element a b tag _ _ hbody hstate).bind fun _ _ => ih hvisitor
  | opened hname hcounts _ ih =>
    exact (hvisitor.opened a b _ hname hcounts hstate).bind fun _ _ => ih hvisitor
  | leftOut hname hitem _ ih =>
    rw [Visitor.visit, hvisitor.leftOut a _ hname hitem]
    exact ih hvisitor hstate
  | leftOutBetween hname hitem _ ih =>
    -- The texts are visited one after the other on one side, and as one on the other.
    rw [Visitor.visit, Visitor.visit, hvisitor.leftOut _ _ hname hitem]
    change Alike matter (visitor.visit (visitor.text (visitor.text a _) _) _) _
    rw [hvisitor.text_append]
    exact ih hvisitor hstate

/-- Items are read for their tags, so that both spellings of one are the same. -/
theorem respects_items {read : σ → Tag → Except ReadError σ} {matter : σ → τ}
    (hread : ∀ a b tag, matter a = matter b → Alike matter (read a tag) (read b tag))
    (hleftOut : ∀ state tag, tag.name ∈ structuralNames → ¬ IsItem parent tag →
      read state tag = .ok state) :
    (Visitor.items read).Respects selection parent matter where
  text _ _ _ hstate := hstate
  text_append _ _ _ := rfl
  void := hread
  leftOut := hleftOut
  opened a b tag _ _ hstate := by
    have hdone : (Visitor.items read).element b tag .done = read b tag := bind_pure (read b tag)
    rw [hdone]
    exact hread a b tag hstate
  element a b tag body body' hbody hstate := by
    refine (hread a b tag hstate).bind fun a b hstate => ?_
    rw [hbody.skip_eq]
    exact .bind_ok fun _ => hstate

theorem respects_sections {read : String → Option (σ → Tag → Content → Except ReadError σ)}
    {matter : σ → τ}
    (hopened : ∀ tag visitElement, read tag.name = some visitElement → ¬ Counts selection parent tag →
      ∀ a b, matter a = matter b → Alike matter (.ok a) (visitElement b tag .done))
    (helement : ∀ tag visitElement, read tag.name = some visitElement →
      ∀ a b body body', Respelled selection tag.name body body' → matter a = matter b →
        Alike matter (visitElement a tag body) (visitElement b tag body')) :
    (Visitor.sections read).Respects selection parent matter where
  text _ _ _ hstate := hstate
  text_append _ _ _ := rfl
  void _ _ _ hstate := .ok hstate
  leftOut _ _ _ _ := rfl
  opened a b tag _ hcounts hstate := by
    simp only [Visitor.sections]
    split
    · next visitElement hread => exact hopened tag visitElement hread hcounts a b hstate
    · exact .ok hstate
  element a b tag body body' hbody hstate := by
    simp only [Visitor.sections]
    split
    · next visitElement hread => exact helement tag visitElement hread a b body body' hbody hstate
    · rw [hbody.skip_eq]
      exact .bind_ok fun _ => hstate

end Visiting

/-! ### The readers of declarations -/

section Readers

variable {selection : Selection} {parent : String} {content other : Content}

theorem respects_text : textVisitor.Respects selection parent id where
  text _ _ _ hstate := congrArg (· ++ _) hstate
  text_append _ _ _ := List.append_assoc ..
  void _ _ _ hstate := .ok hstate
  leftOut _ _ _ _ := rfl
  opened _ _ _ _ _ hstate := .ok hstate
  element a b tag body body' hbody hstate := by
    obtain rfl : a = b := hstate
    simp only [textVisitor, hbody.skip_eq, Alike]

theorem visit_text_eq (h : Respelled selection parent content other) :
    textVisitor.visit [] content = textVisitor.visit [] other :=
  alike_id_iff.mp (respects_text.visit h rfl)

theorem respects_declaration (hparent : parent = "proto" ∨ parent = "param") :
    declarationVisitor.Respects selection parent id where
  text _ _ _ hstate := congrArg (PartialDeclaration.addSpelling · _) hstate
  text_append := Document.addSpelling_append
  void _ _ _ hstate := .ok hstate
  leftOut _ _ _ _ := rfl
  opened a b tag hname hcounts hstate := by
    obtain rfl : a = b := hstate
    simp only [declarationVisitor]
    split
    · next hptype => exact absurd hptype (name_ne_of_mem hname (by decide))
    · next hdeclared => exact absurd (by simp [Counts, hparent, hdeclared]) hcounts
    · rfl
  element a b tag body body' hbody hstate := by
    obtain rfl : a = b := hstate
    simp only [declarationVisitor, visit_text_eq hbody, hbody.skip_eq, Alike]

theorem readDeclaration_eq {tag : Tag} (hname : tag.name = "proto" ∨ tag.name = "param")
    (h : Respelled selection tag.name content other) :
    readDeclaration tag content = readDeclaration tag other := by
  have hvisit := alike_id_iff.mp ((respects_declaration hname).visit h (rfl : id {} = id {}))
  rw [readDeclaration, hvisit, readDeclaration]

theorem respects_parts : partVisitor.Respects selection "command" id := by
  refine respects_sections (fun tag visitElement hread hcounts => ?_) fun tag visitElement hread => ?_
  · split at hread
    · next hname => exact absurd (by simp [Counts, hname]) hcounts
    · next hname => exact absurd (by simp [Counts, hname]) hcounts
    · cases hread
  · rintro a b body body' hbody hstate
    obtain rfl : a = b := hstate
    split at hread
    · next hname =>
      cases hread
      simp only [readDeclaration_eq (.inl hname) hbody, Alike]
    · next hname =>
      cases hread
      simp only [readDeclaration_eq (.inr hname) hbody, Alike]
    · cases hread

theorem readCommand_eq (h : Respelled selection "command" content other) :
    readCommand content = readCommand other := by
  have hvisit := alike_id_iff.mp (respects_parts.visit h (rfl : id {} = id {}))
  rw [readCommand, hvisit, readCommand]

/-! ### The readers of mentions -/

theorem visit_members_eq (h : Respelled selection "group" content other) :
    memberVisitor.visit [] content = memberVisitor.visit [] other := by
  refine alike_id_iff.mp ((respects_items ?_ ?_).visit h rfl)
  · rintro a b tag rfl
    rfl
  · intro members tag hname _
    rw [if_neg (name_ne_of_mem hname (by decide))]
    rfl

theorem readListing_eq {tag : Tag} (h : Respelled selection "group" content other) :
    readListing tag content = readListing tag other := by
  rw [readListing, visit_members_eq h, readListing]

theorem readBlock_eq {kind : BlockKind} {tag : Tag} (hname : tag.name = "require" ∨ tag.name = "remove")
    (h : Respelled selection tag.name content other) :
    readBlock kind tag content = readBlock kind tag other := by
  refine alike_id_iff.mp ((respects_items ?_ ?_).visit h rfl)
  · rintro a b tag rfl
    rfl
  · intro block item hstructural hitem
    split
    · next henum => exact absurd henum (name_ne_of_mem hstructural (by decide))
    · next hcommand => exact absurd ⟨hcommand, hname⟩ hitem
    · rfl

theorem respects_blocks : blockVisitor.Respects selection parent trimmedBlocks := by
  have happend {a b : List InterfaceBlock} (hstate : trimmedBlocks a = trimmedBlocks b)
      (block : InterfaceBlock) : trimmedBlocks (a ++ [block]) = trimmedBlocks (b ++ [block]) := by
    rw [trimmedBlocks, trimmedBlocks, List.filter_append, List.filter_append]
    exact congrArg (· ++ _) hstate
  refine respects_sections (fun tag visitElement hread _ a b hstate => ?_)
    fun tag visitElement hread a b body body' hbody hstate => ?_
  · split at hread
    · cases hread
      exact .ok (by simpa [trimmedBlocks] using hstate)
    · cases hread
      exact .ok (by simpa [trimmedBlocks] using hstate)
    · cases hread
  · split at hread
    · next hname =>
      cases hread
      simp only [readBlock_eq (.inl hname) hbody]
      exact .bind_ok (happend hstate)
    · next hname =>
      cases hread
      simp only [readBlock_eq (.inr hname) hbody]
      exact .bind_ok (happend hstate)
    · cases hread

theorem alike_readFeature {tag : Tag} (h : Respelled selection tag.name content other) :
    Alike Feature.trimmed (readFeature tag content) (readFeature tag other) := by
  unfold readFeature
  cases requiredAttribute tag "api" with
  | error error => rfl
  | ok api =>
    cases requiredAttribute tag "name" with
    | error error => rfl
    | ok name =>
      refine (respects_blocks.visit h rfl).bind fun blocks blocks' hblocks => ?_
      exact .ok (congrArg (Feature.mk api name _) hblocks)

theorem alike_readExtension {tag : Tag} (h : Respelled selection tag.name content other) :
    Alike Extension.trimmed (readExtension tag content) (readExtension tag other) := by
  unfold readExtension
  cases requiredAttribute tag "name" with
  | error error => rfl
  | ok name =>
    refine (respects_blocks.visit h rfl).bind fun blocks blocks' hblocks => ?_
    exact .ok (congrArg (Extension.mk name _) hblocks)

/-! ### The readers of sections -/

variable {a b : Declarations}

theorem trimmed_addListing (listing : Listing) :
    (a.addListing listing).trimmed selection =
      { a.trimmed selection with
        listings := (a.trimmed selection).listings ++ if listing.members = [] then [] else [listing] } := by
  by_cases hmembers : listing.members = [] <;>
    simp [Declarations.trimmed, Declarations.addListing, hmembers]

theorem trimmed_addFeature (feature : Feature) :
    (a.addFeature feature).trimmed selection =
      { a.trimmed selection with
        features := (a.trimmed selection).features ++
          if feature.api ∈ selection.apis then [feature.trimmed] else [] } := by
  by_cases hapi : feature.api ∈ selection.apis <;>
    simp [Declarations.trimmed, Declarations.addFeature, hapi]

theorem trimmed_addExtension (extension : Extension) :
    (a.addExtension extension).trimmed selection =
      { a.trimmed selection with
        extensions := (a.trimmed selection).extensions ++
          if extension.trimmed.blocks = [] then [] else [extension.trimmed] } := by
  by_cases hblocks : extension.trimmed.blocks = [] <;>
    simp [Declarations.trimmed, Declarations.addExtension, hblocks]

theorem exists_requiredAttribute {tag : Tag} {name : String} (h : tag.Has name) :
    ∃ value, requiredAttribute tag name = .ok value := by
  obtain ⟨value, hvalue⟩ := Option.isSome_iff_exists.mp h
  exact ⟨value, Document.requiredAttribute_eq_ok hvalue⟩

theorem respects_enums (block : Tag) :
    (enumVisitor selection block).Respects selection parent (Declarations.trimmed selection) := by
  refine respects_items (fun a b tag hstate => ?_) fun declarations tag hname _ => ?_
  · split
    · refine .bind_ok fun declaration? => ?_
      cases declaration? with
      | none => exact hstate
      | some declaration =>
        exact congrArg (fun declarations : Declarations =>
          { declarations with enums := declarations.enums.add declaration }) hstate
    · exact .ok hstate
  · rw [if_neg (name_ne_of_mem hname (by decide))]
    rfl

theorem respects_groups : listingVisitor.Respects selection "groups" (Declarations.trimmed selection) := by
  refine respects_sections (fun tag visitElement hread hcounts a b hstate => ?_)
    fun tag visitElement hread a b body body' hbody hstate => ?_
  · split at hread
    · next hname =>
      cases hread
      have hhas : tag.Has "name" := by_contra fun hnone => hcounts (by simp [Counts, hname, hnone])
      obtain ⟨name, hattribute⟩ := exists_requiredAttribute hhas
      have hlisting : readListing tag .done = .ok ⟨name, []⟩ := by
        rw [readListing, hattribute]
        rfl
      simp only [hlisting]
      refine .ok ?_
      rw [trimmed_addListing, hstate, if_pos rfl, List.append_nil]
    · cases hread
  · split at hread
    · next hname =>
      cases hread
      rw [hname] at hbody
      simp only [readListing_eq hbody]
      refine .bind_ok fun listing => ?_
      rw [trimmed_addListing, trimmed_addListing, hstate]
    · cases hread

theorem respects_commands :
    commandVisitor.Respects selection "commands" (Declarations.trimmed selection) := by
  refine respects_sections (fun tag visitElement hread hcounts a b hstate => ?_)
    fun tag visitElement hread a b body body' hbody hstate => ?_
  · split at hread
    · next hname => exact absurd (by simp [Counts, hname]) hcounts
    · cases hread
  · split at hread
    · next hname =>
      cases hread
      rw [hname] at hbody
      simp only [readCommand_eq hbody]
      refine .bind_ok fun command => ?_
      exact congrArg (fun declarations : Declarations =>
        { declarations with commands := declarations.commands.add command }) hstate
    · cases hread

theorem alike_readSection? (hstate : a.trimmed selection = b.trimmed selection) {tag : Tag}
    (hbody : Respelled selection tag.name content other) {result result' : Except ReadError Declarations}
    (h : readSection? selection a tag content = some result)
    (h' : readSection? selection b tag other = some result') :
    Alike (Declarations.trimmed selection) result result' := by
  unfold readSection? at h h'
  split at h
  · next hname =>
    simp only [hname, Option.some.injEq] at h h' hbody
    rw [← h, ← h']
    exact (respects_enums tag).visit hbody hstate
  · next hname =>
    simp only [hname, Option.some.injEq] at h h' hbody
    rw [← h, ← h']
    exact respects_groups.visit hbody hstate
  · next hname =>
    simp only [hname, Option.some.injEq] at h h' hbody
    rw [← h, ← h']
    exact respects_commands.visit hbody hstate
  · next hname =>
    simp only [hname, Option.some.injEq] at h h'
    rw [← h, ← h']
    refine (alike_readFeature hbody).bind fun feature feature' hfeature => .ok ?_
    have hapi : feature.trimmed.api = feature'.trimmed.api := by rw [hfeature]
    change feature.api = feature'.api at hapi
    rw [trimmed_addFeature, trimmed_addFeature, hstate, hfeature, hapi]
  · next hname =>
    simp only [hname, Option.some.injEq] at h h'
    rw [← h, ← h']
    refine (alike_readExtension hbody).bind fun extension extension' hextension => .ok ?_
    rw [trimmed_addExtension, trimmed_addExtension, hstate, hextension]
  · cases h

theorem alike_readSection?_done (hstate : a.trimmed selection = b.trimmed selection) {tag : Tag}
    (hcounts : ¬ Counts selection parent tag) {result : Except ReadError Declarations}
    (h : readSection? selection b tag .done = some result) :
    Alike (Declarations.trimmed selection) (.ok a) result := by
  unfold readSection? at h
  split at h
  all_goals cases h
  · exact .ok hstate
  · exact .ok hstate
  · exact .ok hstate
  · next hname =>
    have hfeature : tag.Has "name" ∧ ∃ api ∈ tag.value? "api", api ∉ selection.apis :=
      by_contra fun hnone => hcounts (.inr (.inl ⟨hname, hnone⟩))
    obtain ⟨hhas, api, hapi, hunselected⟩ := hfeature
    obtain ⟨name, hattribute⟩ := exists_requiredAttribute hhas
    have hread : readFeature tag .done = .ok ⟨api, name, (tag.value? "number").getD "", []⟩ := by
      rw [readFeature, Document.requiredAttribute_eq_ok hapi, hattribute]
      rfl
    rw [hread]
    refine .ok ?_
    rw [trimmed_addFeature, hstate, if_neg hunselected, List.append_nil]
  · next hname =>
    have hhas : tag.Has "name" :=
      by_contra fun hnone => hcounts (.inr (.inr (.inl ⟨hname, hnone⟩)))
    obtain ⟨name, hattribute⟩ := exists_requiredAttribute hhas
    have hread : readExtension tag .done =
        .ok ⟨name, ((tag.value? "supported").map (Text.listItems '|')).getD [], []⟩ := by
      rw [readExtension, hattribute]
      rfl
    rw [hread]
    refine .ok ?_
    simp [trimmed_addExtension, Extension.trimmed, trimmedBlocks, hstate]

/-! ### A whole document -/

theorem alike_readOutside (h : Respelled selection parent content other) {a b : Option Declarations}
    (hstate : a.map (Declarations.trimmed selection) = b.map (Declarations.trimmed selection)) :
    Alike (Option.map (Declarations.trimmed selection)) (readOutside selection a content)
      (readOutside selection b other) := by
  induction h generalizing a b with
  | done => exact .ok hstate
  | failed fault => rfl
  | text characters _ ih => exact ih hstate
  | void tag _ ih => exact ih hstate
  | leftOut _ _ _ ih => exact ih hstate
  | leftOutBetween _ _ _ ih => exact ih hstate
  | @opened parent tag next next' hname hcounts _ ih =>
    by_cases hsection : b.isSome ∧ IsSection tag
    · obtain ⟨b, rfl⟩ := Option.isSome_iff_exists.mp hsection.1
      obtain ⟨a, rfl, ha⟩ := Option.map_eq_some_iff.mp hstate
      obtain ⟨result, hresult⟩ := exists_readSection? hsection.2 selection b .done
      rw [readOutside, readOutside, Option.bind_some, hresult]
      change Alike _ (Except.ok a >>= fun a => readOutside selection (some a) next) _
      exact (alike_readSection?_done ha hcounts hresult).bind fun a b hab => ih (congrArg some hab)
    · have hentered : entered? b tag = b := if_neg fun hregistry => hcounts (.inl hregistry)
      rw [readOutside_through hsection, hentered]
      exact ih hstate
  | @element parent tag body body' next next' hbody _ ihbody ihnext =>
    by_cases hsection : b.isSome ∧ IsSection tag
    · obtain ⟨b, rfl⟩ := Option.isSome_iff_exists.mp hsection.1
      obtain ⟨a, rfl, ha⟩ := Option.map_eq_some_iff.mp hstate
      obtain ⟨result, hresult⟩ := exists_readSection? hsection.2 selection a body
      obtain ⟨result', hresult'⟩ := exists_readSection? hsection.2 selection b body'
      rw [readOutside, readOutside, Option.bind_some, Option.bind_some, hresult, hresult']
      exact (alike_readSection? ha hbody hresult hresult').bind fun a b hab => ihnext (congrArg some hab)
    · have hsome : a.isSome = b.isSome := by simpa using congrArg Option.isSome hstate
      rw [readOutside_through hsection, readOutside_through (hsome ▸ hsection)]
      refine (ihbody ?_).bind fun _ _ => ihnext
      unfold entered?
      split
      · cases a with
        | none => cases b with
          | none => rfl
          | some b => cases hstate
        | some a => cases b with
          | none => cases hstate
          | some b => exact hstate
      · exact hstate

end Readers

/-- A document reads the same if void elements that do not count are opened, and whichever of them are left
out: the same registry, or the same error. -/
theorem read_eq_of_respelled {text other : String} {selection : Selection}
    (h : Respelled selection "" (Content.ofText text) (Content.ofText other)) :
    read text selection = read other selection := by
  have houtside := alike_readOutside h (rfl : Option.map (Declarations.trimmed selection) none = none)
  have hdeclarations : Alike (Declarations.trimmed selection)
      (readDeclarations selection (Content.ofText text))
      (readDeclarations selection (Content.ofText other)) := by
    refine houtside.bind fun first second hmatter => ?_
    cases first with
    | none => cases second with
      | none => rfl
      | some declarations => cases hmatter
    | some declarations => cases second with
      | none => cases hmatter
      | some others => exact .ok (Option.some.inj hmatter)
  refine alike_id_iff.mp (hdeclarations.bind fun declarations others htrimmed => .ok ?_)
  rw [← Declarations.registry_trimmed, htrimmed, Declarations.registry_trimmed]

/-- Void elements of several sorts: sections, blocks, an item, and a feature. -/
def voidSpelling : Content :=
  .element ⟨"registry", []⟩
    (.void ⟨"enums", []⟩
      (.element ⟨"feature", [⟨"api", "gl"⟩, ⟨"name", "GL_VERSION_1_0"⟩]⟩
        (.void ⟨"require", []⟩
          (.element ⟨"require", []⟩ (.void ⟨"command", [⟨"name", "glDraw"⟩]⟩ .done) .done))
        (.text "\n".toList
          (.void ⟨"feature", [⟨"api", "gl"⟩, ⟨"name", "GL_VERSION_1_1"⟩]⟩
            (.text "\n".toList (.void ⟨"extension", [⟨"name", "GL_EXT"⟩]⟩ .done))))))
    .done

def openSpelling : Content :=
  .element ⟨"registry", []⟩
    (.element ⟨"enums", []⟩ .done
      (.element ⟨"feature", [⟨"api", "gl"⟩, ⟨"name", "GL_VERSION_1_0"⟩]⟩
        (.element ⟨"require", []⟩ .done
          (.element ⟨"require", []⟩ (.element ⟨"command", [⟨"name", "glDraw"⟩]⟩ .done .done) .done))
        (.text "\n\n".toList (.element ⟨"extension", [⟨"name", "GL_EXT"⟩]⟩ .done .done))))
    .done

theorem read_voidSpelling :
    read (String.ofList voidSpelling.write) {} = read (String.ofList openSpelling.write) {} ∧
      (read (String.ofList voidSpelling.write) {}).toOption.map (fun registry =>
        registry.versions.map (·.name)) = some ["GL_VERSION_1_0"] := by
  have hvoid : Content.ofText (String.ofList voidSpelling.write) = voidSpelling :=
    ofText_write_content (by decide +kernel) rfl
  have hopen : Content.ofText (String.ofList openSpelling.write) = openSpelling :=
    ofText_write_content (by decide +kernel) rfl
  have hspelled : Respelled {} "" voidSpelling openSpelling := by
    refine .element _ (.opened (by decide) (by simp [Counts]) ?_) .done
    refine .element _ (.opened (by decide) (by simp [Counts]) ?_) ?_
    · exact .element _ (.opened (by decide) (by simp [Counts]) .done) .done
    · refine .leftOutBetween (by decide) (by simp [IsItem]) (.text _ ?_)
      exact .opened (by decide) (by simp [Counts, Tag.Has, Tag.value?]) .done
  refine ⟨read_eq_of_respelled (by rw [hvoid, hopen]; exact hspelled), ?_⟩
  rw [read, hvoid]
  decide +kernel

def voidFeature : String :=
  "<registry><feature api='gl' name='GL_VERSION_1_0' number='1.0'/></registry>"

def openFeature : String :=
  "<registry><feature api='gl' name='GL_VERSION_1_0' number='1.0'></feature></registry>"

/-- Elements that count do not read the same in both spellings: a feature that gives a version is lost, and
a command that lacks its prototype is not noticed. -/
theorem read_voidFeature_ne :
    read voidFeature {} ≠ read openFeature {} ∧
      (read voidFeature {}).toOption.map (fun registry => registry.versions.map (·.name)) = some [] ∧
      (read openFeature {}).toOption.map (fun registry => registry.versions.map (·.name)) =
        some ["GL_VERSION_1_0"] ∧
      stoppedAt (read "<registry><commands><command/></commands></registry>" {}) = none ∧
      stoppedAt (read "<registry><commands><command></command></commands></registry>" {}) =
        some (.missingElement "command" "proto") := by
  have hvoid : (read voidFeature {}).toOption.map (fun registry => registry.versions.map (·.name)) =
      some [] := by decide +kernel
  have hopen : (read openFeature {}).toOption.map (fun registry => registry.versions.map (·.name)) =
      some ["GL_VERSION_1_0"] := by decide +kernel
  refine ⟨fun heq => ?_, hvoid, hopen, by decide +kernel, by decide +kernel⟩
  rw [heq, hopen] at hvoid
  cases hvoid

end RegistryBindings.Registry
