import RegistryBindings.Proofs.Markup.Seams
import RegistryBindings.Proofs.Registry.Acceptance
import RegistryBindings.Proofs.Registry.RoundTrip

/-!
# The places of content

What a piece of content means depends on the place it stands at: outside the sections, in a section, in one of
the elements that a section is made of, or in an element that is skipped. A place decides which visitors read
the content there, which children they know, and at which place the content of a child stands.

Two contents are the same at a place, for `SameAt`, if whatever reads them there gives the same result, errors
included. That is kept by everything that content is put together with, so that a change deep inside a document
is followed outwards one element at a time. Whether the registry element was opened before decides what a
section is, and is carried along.
-/

namespace RegistryBindings.Registry

open Markup

/-- What the content of an element is read for. -/
inductive Place where
  /-- Outside the sections. -/
  | outside
  | enums
  | groups
  | group
  | commands
  | command
  /-- In a `proto` or `param` element. -/
  | declaration
  /-- In a `ptype` or `name` element. -/
  | text
  /-- In a `feature` or `extension` element. -/
  | interface
  /-- In a `require` or `remove` element. -/
  | block
  /-- In an element of which only the faults matter. -/
  | skipped
deriving DecidableEq, Repr

namespace Place

def knownNames : Place → List String
  | outside => ["registry", "enums", "groups", "commands", "feature", "extension"]
  | enums | group => ["enum"]
  | groups => ["group"]
  | commands => ["command"]
  | command => ["proto", "param"]
  | declaration => ["ptype", "name"]
  | interface => ["require", "remove"]
  | block => ["enum", "command"]
  | text | skipped => []

/-- The place of the content of those children, inside a section. -/
def inner : Place → Place
  | groups => group
  | commands => command
  | command => declaration
  | declaration => text
  | interface => block
  | outside | enums | group | text | block | skipped => skipped

/-- The place of the content of a section, or of an element that is looked through. -/
def ofSection : String → Place
  | "enums" => enums
  | "groups" => groups
  | "commands" => commands
  | "feature" | "extension" => interface
  | _ => outside

def child (entered : Bool) (place : Place) (name : String) : Place :=
  if place = outside then (if entered then ofSection name else outside)
  else if name ∈ place.knownNames then place.inner else skipped

theorem child_of_mem {place : Place} {name : String} (hplace : place ≠ outside)
    (h : name ∈ place.knownNames) (entered : Bool) : place.child entered name = place.inner := by
  rw [child, if_neg hplace, if_pos h]

theorem child_of_not_mem {place : Place} {name : String} (hplace : place ≠ outside)
    (h : name ∉ place.knownNames) (entered : Bool) : place.child entered name = skipped := by
  rw [child, if_neg hplace, if_neg h]

theorem ofSection_eq_outside {tag : Tag} (h : ¬ IsSection tag) : ofSection tag.name = outside := by
  unfold ofSection
  split
  all_goals simp_all [IsSection]

end Place

/-! ### Readers -/

def faultVisitor : Visitor Unit :=
  .sections fun _ => none

theorem visit_fault (state : Unit) (content : Content) : faultVisitor.visit state content = skip content := by
  induction content with
  | done => rfl
  | failed fault => rfl
  | text characters next ih => exact ih
  | void tag next ih => exact ih
  | element tag body next ihbody ihnext =>
    change ((skip body >>= fun _ => .ok state) >>= fun state => faultVisitor.visit state next) = _
    simp only [ihnext, skip, Content.fault?]
    cases body.fault? <;> rfl

/-- The visitors that read the content at a place inside a section. -/
inductive Reads (selection : Selection) : Place → {σ : Type} → Visitor σ → Prop
  | enums (tag : Tag) : Reads selection .enums (enumVisitor selection tag)
  | groups : Reads selection .groups listingVisitor
  | group : Reads selection .group memberVisitor
  | commands : Reads selection .commands commandVisitor
  | command : Reads selection .command partVisitor
  | declaration : Reads selection .declaration declarationVisitor
  | text : Reads selection .text textVisitor
  | interface : Reads selection .interface blockVisitor
  | block : Reads selection .block itemVisitor
  | skipped : Reads selection .skipped faultVisitor

def Visitor.SameFor {σ : Type} (visitor : Visitor σ) (first second : Content) : Prop :=
  ∀ state, visitor.visit state first = visitor.visit state second

section Readers

variable {σ : Type} {selection : Selection} {entered : Bool} {place : Place} {visitor : Visitor σ}
  {tag : Tag} {body other : Content}

theorem skip_congr (h : faultVisitor.SameFor body other) : skip body = skip other := by
  have hvisit := h ()
  rwa [visit_fault, visit_fault] at hvisit

theorem Reads.ne_outside (h : Reads selection place visitor) : place ≠ .outside := by
  cases h <;> decide

theorem Reads.text_append (h : Reads selection place visitor) (state : σ) (first second : List Char) :
    visitor.text (visitor.text state first) second = visitor.text state (first ++ second) := by
  cases h with
  | declaration => exact Document.addSpelling_append state first second
  | text => exact List.append_assoc ..
  | enums | groups | group | commands | command | interface | block | skipped => rfl

theorem Reads.text_nil (h : Reads selection place visitor) (state : σ) : visitor.text state [] = state := by
  cases h with
  | declaration => exact Document.addSpelling_nil state
  | text => exact List.append_nil state
  | enums | groups | group | commands | command | interface | block | skipped => rfl

/-- A child that means nothing is skipped. -/
theorem Reads.element_of_not_mem (h : Reads selection place visitor) (hname : tag.name ∉ place.knownNames)
    (state : σ) : visitor.element state tag body = (skip body >>= fun _ => .ok state) := by
  have hsections {σ : Type} {read : String → Option (σ → Tag → Content → Except ReadError σ)}
      (hread : read tag.name = none) (state : σ) :
      (Visitor.sections read).element state tag body = (skip body >>= fun _ => .ok state) := by
    simp only [Visitor.sections, hread]
    rfl
  have hne {name : String} (hmem : name ∈ place.knownNames) : tag.name ≠ name := fun heq => hname (heq ▸ hmem)
  cases h with
  | enums block =>
    simp only [enumVisitor, Visitor.items, if_neg (hne List.mem_cons_self)]
    rfl
  | group =>
    simp only [memberVisitor, Visitor.items, if_neg (hne List.mem_cons_self)]
    rfl
  | block =>
    simp only [itemVisitor, Visitor.items]
    split
    · next henum => exact absurd henum (hne (by decide))
    · next hcommand => exact absurd hcommand (hne (by decide))
    · rfl
  | text => rfl
  | skipped => exact hsections rfl state
  | declaration =>
    simp only [declarationVisitor]
    split
    · next hptype => exact absurd hptype (hne (by decide))
    · next hdeclared => exact absurd hdeclared (hne (by decide))
    · rfl
  | groups =>
    refine hsections ?_ state
    split
    · next hgroup => exact absurd hgroup (hne (by decide))
    · rfl
  | commands =>
    refine hsections ?_ state
    split
    · next hcommand => exact absurd hcommand (hne (by decide))
    · rfl
  | command =>
    refine hsections ?_ state
    split
    · next hproto => exact absurd hproto (hne (by decide))
    · next hparam => exact absurd hparam (hne (by decide))
    · rfl
  | interface =>
    refine hsections ?_ state
    split
    · next hrequire => exact absurd hrequire (hne (by decide))
    · next hremove => exact absurd hremove (hne (by decide))
    · rfl

theorem Reads.void_of_not_mem (h : Reads selection place visitor) (hname : tag.name ∉ place.knownNames)
    (state : σ) : visitor.void state tag = .ok state := by
  have hne {name : String} (hmem : name ∈ place.knownNames) : tag.name ≠ name := fun heq => hname (heq ▸ hmem)
  cases h with
  | enums block => exact if_neg (hne List.mem_cons_self)
  | group => exact if_neg (hne List.mem_cons_self)
  | block =>
    simp only [itemVisitor, Visitor.items]
    split
    · next henum => exact absurd henum (hne (by decide))
    · next hcommand => exact absurd hcommand (hne (by decide))
    · rfl
  | groups | commands | command | declaration | text | interface | skipped => rfl

/-- An element is read from its tag and its content, and its content at the place it stands at. -/
theorem Reads.element_congr (h : Reads selection place visitor)
    (hbody : ∀ {τ : Type} {inside : Visitor τ}, Reads selection (place.child entered tag.name) inside →
      inside.SameFor body other) (state : σ) :
    visitor.element state tag body = visitor.element state tag other := by
  by_cases hname : tag.name ∈ place.knownNames
  · rw [Place.child_of_mem h.ne_outside hname] at hbody
    cases h with
    | enums block => simp only [enumVisitor, Visitor.items, skip_congr (hbody .skipped)]
    | group => simp only [memberVisitor, Visitor.items, skip_congr (hbody .skipped)]
    | block => simp only [itemVisitor, Visitor.items, skip_congr (hbody .skipped)]
    | text => cases hname
    | skipped => cases hname
    | groups =>
      have hgroup := List.mem_singleton.mp hname
      simp only [listingVisitor, Visitor.sections, hgroup, readListing, hbody .group []]
    | commands =>
      have hcommand := List.mem_singleton.mp hname
      simp only [commandVisitor, Visitor.sections, hcommand, readCommand, hbody .command {}]
    | command =>
      have hread : readDeclaration tag body = readDeclaration tag other := by
        rw [readDeclaration, hbody .declaration {}, readDeclaration]
      simp only [partVisitor, Visitor.sections]
      obtain hproto | hparam : tag.name = "proto" ∨ tag.name = "param" := by
        simpa [Place.knownNames] using hname
      · simp only [hproto, hread]
      · simp only [hparam, hread]
    | declaration =>
      simp only [declarationVisitor, hbody .text []]
      obtain hptype | hdeclared : tag.name = "ptype" ∨ tag.name = "name" := by
        simpa [Place.knownNames] using hname
      · simp only [hptype]
      · simp only [hdeclared]
    | interface =>
      have hread (kind : BlockKind) : readBlock kind tag body = readBlock kind tag other := hbody .block _
      simp only [blockVisitor, Visitor.sections]
      obtain hrequire | hremove : tag.name = "require" ∨ tag.name = "remove" := by
        simpa [Place.knownNames] using hname
      · simp only [hrequire, hread]
      · simp only [hremove, hread]
  · rw [Place.child_of_not_mem h.ne_outside hname] at hbody
    rw [h.element_of_not_mem hname, h.element_of_not_mem hname, skip_congr (hbody .skipped)]

theorem readSection?_eq_of_sameFor
    (hbody : ∀ {τ : Type} {inside : Visitor τ}, Reads selection (Place.ofSection tag.name) inside →
      inside.SameFor body other) (declarations : Declarations) :
    readSection? selection declarations tag body = readSection? selection declarations tag other := by
  unfold readSection?
  split
  · next hname =>
    rw [hname] at hbody
    rw [hbody (.enums tag) declarations]
  · next hname =>
    rw [hname] at hbody
    rw [hbody .groups declarations]
  · next hname =>
    rw [hname] at hbody
    rw [hbody .commands declarations]
  · next hname =>
    rw [hname] at hbody
    rw [readFeature, hbody .interface [], readFeature]
  · next hname =>
    rw [hname] at hbody
    rw [readExtension, hbody .interface [], readExtension]
  · rfl

end Readers

/-! ### Contents that are the same at a place -/

/-- Whatever reads content at the place reads both with the same result. `entered` says whether the registry
element was opened before. -/
structure SameAt (selection : Selection) (entered : Bool) (place : Place) (first second : Content) : Prop where
  outside : place = .outside → ∀ declarations?, declarations?.isSome = entered →
    readOutside selection declarations? first = readOutside selection declarations? second
  inside : ∀ {σ : Type} {visitor : Visitor σ}, Reads selection place visitor → visitor.SameFor first second

namespace SameAt

variable {selection : Selection} {entered : Bool} {place : Place} {first second third : Content}

theorem refl (content : Content) : SameAt selection entered place content content where
  outside _ _ _ := rfl
  inside _ _ := rfl

theorem symm (h : SameAt selection entered place first second) : SameAt selection entered place second first where
  outside hplace declarations? hentered := (h.outside hplace declarations? hentered).symm
  inside hvisitor state := (h.inside hvisitor state).symm

theorem trans (h : SameAt selection entered place first second)
    (hnext : SameAt selection entered place second third) : SameAt selection entered place first third where
  outside hplace declarations? hentered :=
    (h.outside hplace declarations? hentered).trans (hnext.outside hplace declarations? hentered)
  inside hvisitor state := (h.inside hvisitor state).trans (hnext.inside hvisitor state)

theorem text (characters : List Char) (h : SameAt selection entered place first second) :
    SameAt selection entered place (.text characters first) (.text characters second) where
  outside := h.outside
  inside hvisitor _ := h.inside hvisitor _

theorem void (tag : Tag) (h : SameAt selection entered place first second) :
    SameAt selection entered place (.void tag first) (.void tag second) where
  outside := h.outside
  inside hvisitor _ := bind_congr fun state => h.inside hvisitor state

/-- The content of an element, and what follows the element. -/
theorem element {tag : Tag} {body other : Content}
    (hbody : SameAt selection (entered || tag.name = "registry") (place.child entered tag.name) body other)
    (hnext : SameAt selection (entered || tag.name = "registry" || body.Opens "registry") place first second) :
    SameAt selection entered place (.element tag body first) (.element tag other second) where
  inside hvisitor state := by
    rw [Visitor.visit, Visitor.visit, hvisitor.element_congr hbody.inside]
    exact bind_congr fun state => hnext.inside hvisitor state
  outside hplace declarations? hentered := by
    subst hplace
    by_cases hsection : declarations?.isSome ∧ IsSection tag
    · obtain ⟨declarations, rfl⟩ := Option.isSome_iff_exists.mp hsection.1
      obtain rfl : true = entered := hentered
      obtain ⟨result, hresult⟩ := exists_readSection? hsection.2 selection declarations other
      have hchild : Place.child true .outside tag.name = .ofSection tag.name := rfl
      rw [hchild] at hbody
      rw [readOutside, readOutside, Option.bind_some, Option.bind_some, readSection?_eq_of_sameFor hbody.inside,
        hresult]
      exact bind_congr fun declarations => hnext.outside rfl (some declarations) rfl
    · have hchild : Place.child entered .outside tag.name = .outside := by
        rw [Place.child, if_pos rfl]
        split
        · next htrue => exact Place.ofSection_eq_outside fun htag => hsection ⟨hentered.trans htrue, htag⟩
        · rfl
      have hopened : (entered? declarations? tag).isSome = (entered || tag.name = "registry") :=
        hentered ▸ isSome_entered? declarations? tag
      rw [readOutside_through hsection, readOutside_through hsection, ← hbody.outside hchild _ hopened]
      cases hafter : readOutside selection (entered? declarations? tag) body with
      | error error => rfl
      | ok after =>
        refine hnext.outside rfl after ?_
        rw [Bool.eq_iff_iff, isSome_readOutside hafter, hopened]
        simp

end SameAt

/-! ### Texts that meet -/

theorem sameAt_withText {selection : Selection} {entered : Bool} {place : Place} (characters : List Char)
    (events : Events) :
    SameAt selection entered place (Content.split (events.withText characters)).1
      (.text characters (Content.split events).1) := by
  cases characters with
  | nil =>
    refine ⟨fun _ _ _ => rfl, fun hvisitor state => ?_⟩
    rw [Visitor.visit, hvisitor.text_nil]
    rfl
  | cons c characters =>
    cases events with
    | ended => exact .refl _
    | failed fault => exact .refl _
    | cons event rest =>
      cases event with
      | text more =>
        refine ⟨fun _ _ _ => rfl, fun hvisitor state => ?_⟩
        change Visitor.visit _ (Visitor.text _ state (c :: characters ++ more)) _ = _
        rw [← hvisitor.text_append]
        rfl
      | opening tag => exact .refl _
      | closing name => exact .refl _
      | void tag => exact .refl _
      | aside => exact .refl _

/-- Asides and the parting of texts matter at no place, neither in the content that the events begin with nor
in those after it. -/
theorem sameAt_merged (selection : Selection) (events : Events) :
    List.Forall₂ (fun first second => ∀ entered place, SameAt selection entered place first second)
      events.merged.contents events.contents := by
  induction events with
  | ended => exact .cons (fun _ _ => .refl _) .nil
  | failed fault => exact .cons (fun _ _ => .refl _) .nil
  | cons event rest ih =>
    cases event with
    | text characters =>
      obtain ⟨hcontent, hafter⟩ := List.forall₂_cons.mp ih
      have htail : (Content.split (rest.merged.withText characters)).2 = (Content.split rest.merged).2 :=
        Events.contents_withText_tail characters rest.merged
      rw [Events.merged, Events.contents, htail]
      refine .cons (fun entered place => ?_) hafter
      exact (sameAt_withText characters rest.merged).trans ((hcontent entered place).text characters)
    | void tag =>
      obtain ⟨hcontent, hafter⟩ := List.forall₂_cons.mp ih
      exact .cons (fun entered place => (hcontent entered place).void tag) hafter
    | aside => exact ih
    | closing name => exact .cons (fun _ _ => .refl _) ih
    | opening tag =>
      rw [Events.merged, Events.contents_opening, Events.contents_opening]
      generalize rest.merged.contents = merged at ih
      generalize rest.contents = parted at ih
      cases ih with
      | nil => exact .nil
      | cons hcontent hafter =>
        cases hafter with
        | nil => exact .cons (fun entered place => .element (hcontent _ _) (.refl _)) .nil
        | cons hnext houter => exact .cons (fun entered place => .element (hcontent _ _) (hnext _ _)) houter

/-! ### Reading events -/

def readEvents (events : Events) (selection : Selection) : Except ReadError Registry := do
  let declarations ← readDeclarations selection (Content.split events).1
  return declarations.registry selection

variable {selection : Selection} {events other : Events}

theorem readEvents_congr
    (h : SameAt selection false .outside (Content.split events).1 (Content.split other).1) :
    readEvents events selection = readEvents other selection := by
  have hread := h.outside rfl none rfl
  rw [readEvents, readDeclarations, hread, readEvents, readDeclarations]

theorem readEvents_merged (events : Events) (selection : Selection) :
    readEvents events.merged selection = readEvents events selection :=
  readEvents_congr ((List.forall₂_cons.mp (sameAt_merged selection events)).1 false .outside)

theorem readEvents_nest_congr (h : events.merged = other.merged) (opened : List String) :
    readEvents (events.nest opened) selection = readEvents (other.nest opened) selection := by
  rw [← readEvents_merged, Events.merged_nest, h, ← Events.merged_nest, readEvents_merged]

/-- Reading a text is reading its events. Even a byte order mark may be left in front of them, where it is a
text like any other. -/
theorem read_eq_readEvents (text : List Char) (selection : Selection) :
    read (String.ofList text) selection = readEvents ((scan text).nest []) selection := by
  have hread : read (String.ofList text) selection =
      readEvents (Events.ofText (String.ofList text)) selection := rfl
  rw [hread, Events.ofText, String.toList_ofList]
  split
  · next rest =>
    have hmark : ∀ c ∈ ['\uFEFF'], isTextChar c = true := List.forall_mem_singleton.mpr rfl
    have hmerged : (scan ('\uFEFF' :: rest)).merged = (Events.cons (.text ['\uFEFF']) (scan rest)).merged :=
      merged_scan_text_append hmark rest
    rw [readEvents_nest_congr hmerged]
    rfl
  · rfl

end RegistryBindings.Registry
