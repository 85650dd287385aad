import RegistryBindings.Proofs.Registry.Acceptance
import RegistryBindings.Proofs.Registry.RoundTrip
import RegistryBindings.Proofs.Text.Spacing

/-!
# The type and the name that a declaration gives

What a `proto` or `param` element declares can be said without the state that its reader carries. Its content is a
sequence of pieces: texts, elements, and what only parts texts. The type is made of the words in front of the
first `name` element, where the content of a `ptype` element is set off by spaces and texts that meet are one,
whatever stands between them. The name is that of the last `name` element, trimmed.

The words are joined by single spaces, so the type does not depend on how much white space stands where there is
some: neither in the text between elements nor in a `ptype` element.
-/

namespace RegistryBindings.Registry

open Markup Text

/-! ### Pieces -/

/-- What may stand directly in an element that is closed. -/
inductive Piece where
  | text (characters : List Char)
  /-- A comment, a reference or other markup without meaning. -/
  | aside
  | void (tag : Tag)
  | element (tag : Tag) (inner : Events) (body : Content) (nested : Nested inner body)

namespace Piece

def eventsOf : List Piece → Events
  | [] => .ended
  | text characters :: rest => .cons (.text characters) (eventsOf rest)
  | aside :: rest => .cons .aside (eventsOf rest)
  | void tag :: rest => .cons (.void tag) (eventsOf rest)
  | element tag inner _ _ :: rest =>
    .cons (.opening tag) (inner.append (.cons (.closing tag.name) (eventsOf rest)))

def contentOf : List Piece → Content
  | [] => .done
  | text characters :: rest => .text characters (contentOf rest)
  | aside :: rest => contentOf rest
  | void tag :: rest => .void tag (contentOf rest)
  | element tag _ body _ :: rest => .element tag body (contentOf rest)

theorem nested_eventsOf (pieces : List Piece) : Nested (eventsOf pieces) (contentOf pieces) := by
  induction pieces with
  | nil => exact .ended
  | cons piece pieces ih =>
    cases piece with
    | text characters => exact .text characters ih
    | aside => exact .aside ih
    | void tag => exact .void tag ih
    | element tag inner body nested => exact .element tag nested ih

/-- Whatever stands in a closed element is a sequence of pieces. -/
theorem exists_eventsOf_eq {events : Events} {content : Content} (h : Nested events content) :
    ∃ pieces, eventsOf pieces = events := by
  induction h with
  | ended => exact ⟨[], rfl⟩
  | text characters _ ih =>
    obtain ⟨pieces, rfl⟩ := ih
    exact ⟨.text characters :: pieces, rfl⟩
  | void tag _ ih =>
    obtain ⟨pieces, rfl⟩ := ih
    exact ⟨.void tag :: pieces, rfl⟩
  | aside _ ih =>
    obtain ⟨pieces, rfl⟩ := ih
    exact ⟨.aside :: pieces, rfl⟩
  | element tag hbody _ _ ih =>
    obtain ⟨pieces, rfl⟩ := ih
    exact ⟨.element tag _ _ hbody :: pieces, rfl⟩

theorem contentOf_eq {events : Events} {content : Content} (h : Nested events content) {pieces : List Piece}
    (hpieces : eventsOf pieces = events) : contentOf pieces = content := by
  have hcontents := (nested_eventsOf pieces).contents_eq
  rw [hpieces, h.contents_eq] at hcontents
  exact (List.cons.inj hcontents).1.symm

end Piece

def directText : Content → List Char
  | .done | .failed _ => []
  | .text characters next => characters ++ directText next
  | .void _ next | .element _ _ next => directText next

theorem visit_textVisitor {content : Content} (h : content.fault? = none) (text : List Char) :
    textVisitor.visit text content = .ok (text ++ directText content) := by
  induction content generalizing text with
  | done => rw [directText, List.append_nil]; rfl
  | failed fault => cases h
  | text characters next ih => rw [directText, ← List.append_assoc, ← ih h]; rfl
  | void tag next ih => exact ih h text
  | element tag body next _ ih =>
    obtain ⟨hbody, hnext⟩ := Option.or_eq_none_iff.mp h
    change ((skip body >>= fun _ => .ok text) >>= fun text => textVisitor.visit text next) = _
    rw [skip_eq_ok hbody]
    exact ih hnext text

/-! ### What the pieces declare -/

namespace Piece

def isName : Piece → Bool
  | element tag _ _ _ => tag.name = "name"
  | text _ | aside | void _ => false

def name? : Piece → Option (List Char)
  | element tag _ body _ => if tag.name = "name" then some (directText body) else none
  | text _ | aside | void _ => none

def spelling : Piece → List Char
  | text characters => characters
  | element tag _ body _ => if tag.name = "ptype" then [' '] ++ directText body ++ [' '] else []
  | aside | void _ => []

def beforeName (pieces : List Piece) : List Char :=
  (pieces.takeWhile (!·.isName)).flatMap spelling

/-- The maximal runs without white space in front of the first `name` element, joined by single spaces. -/
def declaredType (pieces : List Piece) : List Char :=
  [' '].intercalate (((beforeName pieces).splitOnP isBlank).filter (· ≠ []))

def declaredName? (pieces : List Piece) : Option (List Char) :=
  (pieces.filterMap name?).getLast?.map trim

theorem declaredType_eq (pieces : List Piece) : declaredType pieces = collapse (beforeName pieces) := by
  rw [declaredType, collapse, words_eq_splitOnP]

theorem exists_name?_of_isName {piece : Piece} (h : piece.isName = true) : ∃ name, piece.name? = some name := by
  cases piece with
  | element tag inner body nested => exact ⟨directText body, if_pos (of_decide_eq_true h)⟩
  | text characters => cases h
  | aside => cases h
  | void tag => cases h

theorem name?_of_not_isName {piece : Piece} (h : piece.isName = false) : piece.name? = none := by
  cases piece with
  | element tag inner body nested => exact if_neg (of_decide_eq_false h)
  | text characters => rfl
  | aside => rfl
  | void tag => rfl

theorem declaredName?_eq_none_iff {pieces : List Piece} :
    declaredName? pieces = none ↔ ∀ piece ∈ pieces, piece.isName = false := by
  rw [declaredName?, Option.map_eq_none_iff, List.getLast?_eq_none_iff, List.filterMap_eq_nil_iff]
  refine forall_congr' fun piece => imp_congr_right fun _ => ?_
  cases piece <;> simp [name?, isName]

theorem hasOpened_contentOf {pieces : List Piece} :
    (contentOf pieces).HasOpened "name" ↔ ∃ piece ∈ pieces, piece.isName = true := by
  induction pieces with
  | nil => simp [contentOf, Content.HasOpened, Content.children]
  | cons piece pieces ih =>
    rw [List.exists_mem_cons_iff, ← ih]
    cases piece with
    | text characters => simp [contentOf, Content.HasOpened, Content.children, isName]
    | aside => simp [contentOf, isName]
    | void tag => simp [contentOf, Content.hasOpened_void, isName]
    | element tag inner body nested => simp [contentOf, Content.hasOpened_element, isName]

theorem exists_declaredName? {pieces : List Piece} (h : (contentOf pieces).HasOpened "name") :
    ∃ name, declaredName? pieces = some name := by
  obtain ⟨piece, hpiece, hname⟩ := hasOpened_contentOf.mp h
  refine Option.ne_none_iff_exists'.mp fun hnone => ?_
  rw [declaredName?_eq_none_iff.mp hnone piece hpiece] at hname
  cases hname

theorem declaredName?_cons (piece : Piece) (pieces : List Piece) :
    declaredName? (piece :: pieces) = (declaredName? pieces).or (piece.name?.map trim) := by
  unfold declaredName?
  cases hname : piece.name? with
  | none => rw [List.filterMap_cons_none hname, Option.map_none, Option.or_none]
  | some name =>
    rw [List.filterMap_cons_some hname, List.getLast?_cons]
    cases (pieces.filterMap name?).getLast? <;> rfl

theorem beforeName_cons_of_isName {piece : Piece} (h : piece.isName = true) (pieces : List Piece) :
    beforeName (piece :: pieces) = [] := by
  simp [beforeName, h]

theorem beforeName_cons_of_not_isName {piece : Piece} (h : piece.isName = false) (pieces : List Piece) :
    beforeName (piece :: pieces) = piece.spelling ++ beforeName pieces := by
  simp [beforeName, h]

end Piece

/-! ### Reading the pieces -/

def PartialDeclaration.add (declaration : PartialDeclaration) (piece : Piece) : PartialDeclaration :=
  if piece.isName then { declaration with name? := piece.name?.map trim }
  else declaration.addSpelling piece.spelling

theorem visit_contentOf_cons (declaration : PartialDeclaration) (piece : Piece) (pieces : List Piece) :
    declarationVisitor.visit declaration (Piece.contentOf (piece :: pieces)) =
      declarationVisitor.visit (declaration.add piece) (Piece.contentOf pieces) := by
  have hidle : declaration.addSpelling [] = declaration := Document.addSpelling_nil declaration
  cases piece with
  | text characters => rfl
  | aside =>
    have hadd : declaration.add .aside = declaration := hidle
    rw [hadd]
    rfl
  | void tag =>
    have hadd : declaration.add (.void tag) = declaration := hidle
    rw [hadd]
    rfl
  | element tag inner body nested =>
    have hfault := nested.fault?_content
    have helement : declarationVisitor.element declaration tag body =
        .ok (declaration.add (.element tag inner body nested)) := by
      simp only [declarationVisitor, PartialDeclaration.add, Piece.isName, Piece.spelling, Piece.name?,
        decide_eq_true_eq]
      split
      · next hptype => simp [hptype, visit_textVisitor hfault]
      · next hname => simp [hname, visit_textVisitor hfault]
      · next hptype hname =>
        rw [if_neg hname, if_neg hptype, hidle, skip_eq_ok hfault]
        rfl
    change (declarationVisitor.element declaration tag body >>= _) = _
    rw [helement]
    rfl

theorem name?_addSpelling (declaration : PartialDeclaration) (text : List Char) :
    (declaration.addSpelling text).name? = declaration.name? := by
  unfold PartialDeclaration.addSpelling
  split <;> rfl

/-- A whole sequence of pieces, from what was read before it. -/
theorem visit_contentOf (pieces : List Piece) (declaration : PartialDeclaration) :
    declarationVisitor.visit declaration (Piece.contentOf pieces) =
      .ok { declaration.addSpelling (Piece.beforeName pieces) with
        name? := (Piece.declaredName? pieces).or declaration.name? } := by
  induction pieces generalizing declaration with
  | nil =>
    have hidle : declaration.addSpelling [] = declaration := Document.addSpelling_nil declaration
    have hnone : Piece.declaredName? [] = none := rfl
    have hnil : Piece.beforeName [] = [] := rfl
    rw [hnone, hnil, hidle, Option.none_or]
    rfl
  | cons piece pieces ih =>
    rw [visit_contentOf_cons, ih, PartialDeclaration.add, Piece.declaredName?_cons, Option.or_assoc]
    cases hpiece : piece.isName with
    | true =>
      obtain ⟨name, hname⟩ := Piece.exists_name?_of_isName hpiece
      rw [Piece.beforeName_cons_of_isName hpiece, if_pos rfl, hname, Document.addSpelling_nil]
      rfl
    | false =>
      rw [Piece.beforeName_cons_of_not_isName hpiece, if_neg Bool.false_ne_true,
        Piece.name?_of_not_isName hpiece, Option.map_none, Option.none_or, Document.addSpelling_append,
        name?_addSpelling]

theorem readDeclaration_contentOf {pieces : List Piece} {name : List Char}
    (h : Piece.declaredName? pieces = some name) (tag : Tag) :
    readDeclaration tag (Piece.contentOf pieces) =
      .ok (String.ofList name, ⟨String.ofList (Piece.declaredType pieces), tag.value? "group"⟩) := by
  have hspelling : (({} : PartialDeclaration).addSpelling (Piece.beforeName pieces)).spelling =
      Piece.beforeName pieces := rfl
  rw [readDeclaration, visit_contentOf, h, Piece.declaredType_eq, ← hspelling]
  rfl

/-! ### White space of another length -/

/-- The pieces differ in the white space that a type is read from. Elements other than `ptype` may differ in
whatever they contain. -/
inductive Piece.Respaced : Piece → Piece → Prop
  | text {characters characters' : List Char} (h : Text.Respaced characters characters') :
    Respaced (.text characters) (.text characters')
  | aside : Respaced .aside .aside
  | void (tag : Tag) : Respaced (.void tag) (.void tag)
  | element {tag : Tag} {inner inner' : Events} {body body' : Content} (nested : Nested inner body)
    (nested' : Nested inner' body')
    (h : tag.name = "ptype" → Text.Respaced (directText body) (directText body')) :
    Respaced (.element tag inner body nested) (.element tag inner' body' nested')

namespace Piece

theorem Respaced.isName_eq {piece other : Piece} (h : Respaced piece other) : piece.isName = other.isName := by
  cases h <;> rfl

theorem Respaced.spelling {piece other : Piece} (h : Respaced piece other) :
    Text.Respaced piece.spelling other.spelling := by
  cases h with
  | text h => exact h
  | aside => exact .nil
  | void tag => exact .nil
  | @element tag inner inner' body body' nested nested' h =>
    by_cases hptype : tag.name = "ptype"
    · rw [Piece.spelling, Piece.spelling, if_pos hptype, if_pos hptype]
      exact ((Text.Respaced.refl [' ']).append (h hptype)).append (.refl [' '])
    · rw [Piece.spelling, Piece.spelling, if_neg hptype, if_neg hptype]
      exact .nil

variable {pieces others : List Piece}

theorem respaced_beforeName (h : List.Forall₂ Respaced pieces others) :
    Text.Respaced (beforeName pieces) (beforeName others) := by
  induction h with
  | nil => exact .nil
  | @cons piece other pieces others hpiece _ ih =>
    cases hname : piece.isName with
    | true =>
      rw [beforeName_cons_of_isName hname, beforeName_cons_of_isName (hpiece.isName_eq ▸ hname)]
      exact .nil
    | false =>
      rw [beforeName_cons_of_not_isName hname, beforeName_cons_of_not_isName (hpiece.isName_eq ▸ hname)]
      exact hpiece.spelling.append ih

theorem hasOpened_of_respaced (h : List.Forall₂ Respaced pieces others) :
    (contentOf others).HasOpened "name" ↔ (contentOf pieces).HasOpened "name" := by
  rw [hasOpened_contentOf, hasOpened_contentOf]
  induction h with
  | nil => rfl
  | cons hpiece _ ih => rw [List.exists_mem_cons_iff, List.exists_mem_cons_iff, ih, hpiece.isName_eq]

end Piece

/-- Of what stands in front of the first name, the amount of white space does not matter. -/
theorem exists_readDeclaration_of_respaced {pieces others : List Piece}
    (hname : (Piece.contentOf others).HasOpened "name")
    (h : Text.Respaced (Piece.beforeName pieces) (Piece.beforeName others)) (tag : Tag) :
    ∃ name, readDeclaration tag (Piece.contentOf others) =
      .ok (name, ⟨String.ofList (Piece.declaredType pieces), tag.value? "group"⟩) := by
  obtain ⟨name, hdeclared⟩ := Piece.exists_declaredName? hname
  refine ⟨String.ofList name, ?_⟩
  rw [readDeclaration_contentOf hdeclared, Piece.declaredType_eq, Piece.declaredType_eq, h.collapse_eq]

/-! ### Closed declarations -/

/-- What is read from a closed declaration, which consists of the pieces. -/
structure DeclaresType (tag : Tag) (content : Content) (pieces : List Piece) : Prop where
  read : ∃ name, Piece.declaredName? pieces = some name ∧
    readDeclaration tag content =
      .ok (String.ofList name, ⟨String.ofList (Piece.declaredType pieces), tag.value? "group"⟩)
  spacedOnce : IsSpacedOnce (Piece.declaredType pieces)
  newline_not_mem : '\n' ∉ Piece.declaredType pieces
  /-- The type is its own normal form. -/
  collapse_eq : collapse (Piece.declaredType pieces) = Piece.declaredType pieces
  /-- More or less white space where there is some gives the same type, also if it stands in several pieces. -/
  respaced_beforeName : ∀ others, (Piece.contentOf others).HasOpened "name" →
    Text.Respaced (Piece.beforeName pieces) (Piece.beforeName others) →
      ∃ name, readDeclaration tag (Piece.contentOf others) =
        .ok (name, ⟨String.ofList (Piece.declaredType pieces), tag.value? "group"⟩)
  /-- The pieces may be changed one by one, and then the first name stays where it is. -/
  respaced : ∀ others, List.Forall₂ Piece.Respaced pieces others →
    ∃ name, readDeclaration tag (Piece.contentOf others) =
      .ok (name, ⟨String.ofList (Piece.declaredType pieces), tag.value? "group"⟩)

theorem declaresType_contentOf {pieces : List Piece} (hname : (Piece.contentOf pieces).HasOpened "name")
    (tag : Tag) : DeclaresType tag (Piece.contentOf pieces) pieces where
  read := by
    obtain ⟨name, hdeclared⟩ := Piece.exists_declaredName? hname
    exact ⟨name, hdeclared, readDeclaration_contentOf hdeclared tag⟩
  spacedOnce := Piece.declaredType_eq pieces ▸ isSpacedOnce_collapse _
  newline_not_mem := Piece.declaredType_eq pieces ▸ (isSpacedOnce_collapse _).newline_not_mem
  collapse_eq := by
    rw [Piece.declaredType_eq, collapse_collapse]
  respaced_beforeName _ hothers h := exists_readDeclaration_of_respaced hothers h tag
  respaced _ h :=
    exists_readDeclaration_of_respaced ((Piece.hasOpened_of_respaced h).mpr hname) (Piece.respaced_beforeName h) tag

/-- A closed declaration with a `name` element consists of pieces, and gives the type in front of its first name and
the name that is its last. -/
theorem declaresType_of_nested {events : Events} {content : Content} (h : Nested events content)
    (hname : content.HasOpened "name") (tag : Tag) :
    (∃ pieces, Piece.eventsOf pieces = events) ∧
      ∀ pieces, Piece.eventsOf pieces = events → DeclaresType tag content pieces := by
  refine ⟨Piece.exists_eventsOf_eq h, fun pieces hpieces => ?_⟩
  obtain rfl := Piece.contentOf_eq h hpieces
  exact declaresType_contentOf hname tag

/-- A type whose words are parted by a comment and put apart by a `ptype` element, and two names. -/
def scatteredPieces : List Piece :=
  [.text "\n const  GL".toList, .aside, .text "ubyte".toList,
    .element ⟨"ptype", []⟩ _ _ (.text "GLenum\t".toList (.element ⟨"b", []⟩ (.text "GL".toList .ended) .ended)),
    .text "*".toList, .void ⟨"name", []⟩, .element ⟨"name", []⟩ _ _ (.text "first".toList .ended),
    .text "[4]".toList, .element ⟨"name", []⟩ _ _ (.text " last\n".toList .ended)]

theorem declaresType_scattered :
    Nested (Piece.eventsOf scatteredPieces) (Piece.contentOf scatteredPieces) ∧
      (Piece.contentOf scatteredPieces).HasOpened "name" ∧
        readDeclaration ⟨"param", [⟨"group", "Names"⟩]⟩ (Piece.contentOf scatteredPieces) =
          .ok ("last", ⟨"const GLubyte GLenum *", some "Names"⟩) := by
  have hnested := Piece.nested_eventsOf scatteredPieces
  have hopened : (Piece.contentOf scatteredPieces).HasOpened "name" := by decide
  refine ⟨hnested, hopened, ?_⟩
  obtain ⟨name, hname, hread⟩ :=
    ((declaresType_of_nested hnested hopened ⟨"param", [⟨"group", "Names"⟩]⟩).2 scatteredPieces rfl).read
  obtain rfl : "last".toList = name := Option.some.inj (Eq.trans (by decide +kernel) hname)
  have htype : Piece.declaredType scatteredPieces = "const GLubyte GLenum *".toList := by decide +kernel
  rw [hread, htype]
  decide +kernel

end RegistryBindings.Registry
