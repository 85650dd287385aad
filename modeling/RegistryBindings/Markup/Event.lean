import RegistryBindings.Markup.Doctype

/-!
# From characters to events

A text is read as a sequence of events that ends with the text or at a fault. `scan` cuts the text into
events one by one, and `nest` checks that every end tag names the innermost element that is open.
Comments, character data sections, instructions, document types and references are asides: they leave an
event of their own, which only separates the texts around it. Elements still open at the end are no
fault.
-/

namespace RegistryBindings.Markup

open Text

inductive Event where
  /-- Characters outside markup, at least one. -/
  | text (content : List Char)
  /-- A start tag. -/
  | opening (tag : Tag)
  /-- An end tag. -/
  | closing (name : String)
  /-- A tag that is a whole element. -/
  | void (tag : Tag)
  /-- Markup without meaning here. -/
  | aside
deriving DecidableEq, Repr

/-- The events of a text, up to its end or the first fault. -/
inductive Events where
  | ended
  | failed (fault : Fault)
  | cons (event : Event) (rest : Events)
deriving DecidableEq, Repr

/-- The name in an end tag: what follows the slash, without the spaces at its end unless it has nothing
else. -/
def endTagName (text : List Char) : String :=
  let trimmed := (text.reverse.dropWhile isSpace).reverse
  String.ofList (if trimmed = [] then text else trimmed)

def tagEvent : List Char → Event
  | '/' :: name => .closing (endTagName name)
  | text =>
    if text.getLast? = some '/' then .void (Tag.ofText text.dropLast)
    else .opening (Tag.ofText text)

/-- What follows a construct that ends at `mark`, or the fault of its having no end. -/
def skipThrough (mark : List Char) (fault : Fault) (text : List Char) : Except Fault (List Char) :=
  match after? mark text with
  | some rest => .ok rest
  | none => .error fault

/-- What follows a comment, character data section or document type. The text begins after the
exclamation mark. -/
def skipDeclaration : List Char → Except Fault (List Char)
  | '-' :: text =>
    match strip? ['-'] text with
    | some body => skipThrough "-->".toList .commentNotClosed body
    | none => .error .commentNotClosed
  | '[' :: text =>
    match strip? "CDATA[".toList text with
    | some body => skipThrough "]]>".toList .characterDataNotClosed body
    | none => .error .characterDataNotClosed
  | c :: text => if c = 'D' || c = 'd' then skipDoctype (c :: text) else .error .unknownMarkup
  | [] => .error .unknownMarkup

/-- Whether an instruction without an end would have been an XML declaration. -/
def beginsDeclaration (text : List Char) : Bool :=
  match strip? "xml".toList text with
  | some [] => true
  | some (c :: _) => isSpace c || c == '?'
  | none => false

/-- What follows an instruction. The text begins after its question mark, which may not be the one
that ends it. -/
def skipInstruction (text : List Char) : Except Fault (List Char) :=
  if text.head? = some '>' then .error .instructionNotClosed
  else
    skipThrough "?>".toList
      (if beginsDeclaration text then .declarationNotClosed else .instructionNotClosed) text

/-- The event of the markup that begins with a bracket, and what follows it. The text begins after the
bracket. -/
def nextMarkup : List Char → Except Fault (Event × List Char)
  | [] => .error .tagNotClosed
  | '!' :: text => (skipDeclaration text).map fun rest => (.aside, rest)
  | '?' :: text => (skipInstruction text).map fun rest => (.aside, rest)
  | text => (closeTag none text).map fun (inside, rest) => (tagEvent inside, rest)

def skipReference (text : List Char) : Except Fault (List Char) :=
  match text.dropWhile fun c => c != ';' && c != '&' && c != '<' with
  | ';' :: rest => .ok rest
  | _ => .error .referenceNotClosed

def isTextChar (c : Char) : Bool :=
  c != '<' && c != '&'

def nextEvent (c : Char) (text : List Char) : Except Fault (Event × List Char) :=
  if c = '<' then nextMarkup text
  else if c = '&' then (skipReference text).map fun rest => (.aside, rest)
  else .ok (.text (c :: text.takeWhile isTextChar), text.dropWhile isTextChar)

theorem length_of_skipThrough {mark text rest : List Char} {fault : Fault} (hmark : mark ≠ [])
    (h : skipThrough mark fault text = .ok rest) : rest.length < text.length := by
  unfold skipThrough at h
  split at h
  · next hrest =>
    cases h
    exact length_lt_of_after? hmark hrest
  · cases h

theorem length_of_skipDeclaration {text rest : List Char} (h : skipDeclaration text = .ok rest) :
    rest.length < text.length := by
  unfold skipDeclaration at h
  split at h
  · split at h
    · next hbody =>
      exact Nat.lt_succ_of_lt
        (Nat.lt_of_lt_of_le (length_of_skipThrough (by decide) h) (length_le_of_strip? hbody))
    · cases h
  · split at h
    · next hbody =>
      exact Nat.lt_succ_of_lt
        (Nat.lt_of_lt_of_le (length_of_skipThrough (by decide) h) (length_le_of_strip? hbody))
    · cases h
  · split at h
    · exact length_of_skipDoctype h
    · cases h
  · cases h

theorem length_of_skipInstruction {text rest : List Char} (h : skipInstruction text = .ok rest) :
    rest.length < text.length := by
  unfold skipInstruction at h
  split at h
  · cases h
  · exact length_of_skipThrough (by decide) h

theorem length_of_nextMarkup {text rest : List Char} {event : Event}
    (h : nextMarkup text = .ok (event, rest)) : rest.length < text.length := by
  unfold nextMarkup at h
  split at h
  · cases h
  all_goals
    obtain ⟨found, hread, hfound⟩ := eq_ok_of_map_eq_ok h
    cases hfound
  · exact Nat.lt_succ_of_lt (length_of_skipDeclaration hread)
  · exact Nat.lt_succ_of_lt (length_of_skipInstruction hread)
  · exact length_of_closeTag hread

theorem length_of_skipReference {text rest : List Char} (h : skipReference text = .ok rest) :
    rest.length < text.length := by
  unfold skipReference at h
  split at h
  · next hrest => cases h; exact length_lt_of_dropWhile hrest
  · cases h

/-- Every event takes at least one character. -/
theorem length_of_nextEvent {c : Char} {text rest : List Char} {event : Event}
    (h : nextEvent c text = .ok (event, rest)) : rest.length ≤ text.length := by
  unfold nextEvent at h
  split at h
  · exact Nat.le_of_lt (length_of_nextMarkup h)
  · split at h
    · obtain ⟨found, hread, hfound⟩ := eq_ok_of_map_eq_ok h
      cases hfound
      exact Nat.le_of_lt (length_of_skipReference hread)
    · cases h
      exact length_dropWhile_le isTextChar text

/-- The events of a text, its end tags not yet checked. -/
def scan : List Char → Events
  | [] => .ended
  | c :: text =>
    match h : nextEvent c text with
    | .error fault => .failed fault
    | .ok (event, rest) =>
      have : rest.length < text.length + 1 := Nat.lt_succ_of_le (length_of_nextEvent h)
      .cons event (scan rest)
termination_by text => text.length

namespace Events

/-- Ends the events at the first end tag that does not name the innermost element open. `opened` holds
the names of the open elements, innermost first. -/
def nest (opened : List String) : Events → Events
  | ended => ended
  | failed fault => failed fault
  | cons event rest =>
    match event with
    | .opening tag => cons event (rest.nest (tag.name :: opened))
    | .closing name =>
      match opened with
      | [] => failed (.unmatchedEndTag name)
      | innermost :: outer =>
        if name = innermost then cons event (rest.nest outer)
        else failed (.wrongEndTag innermost name)
    | .text _ | .void _ | .aside => cons event (rest.nest opened)

/-- The events of a text. A byte order mark at its very start is no part of it. -/
def ofText (text : String) : Events :=
  (scan (match text.toList with | '\uFEFF' :: rest => rest | all => all)).nest []

end Events

end RegistryBindings.Markup
