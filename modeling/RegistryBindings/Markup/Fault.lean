/-!
# Faults in markup

The ways in which a text can fail to be markup, and their wording. A fault ends the reading: nothing
after it is looked at.
-/

namespace RegistryBindings.Markup

inductive Quote where
  | single
  | double
deriving DecidableEq, Repr

namespace Quote

def char : Quote → Char
  | single => '\x27'
  | double => '\x22'

def ofChar? (c : Char) : Option Quote :=
  if c = '\x27' then some single else if c = '\x22' then some double else none

theorem ofChar?_eq_some_iff {c : Char} {q : Quote} : ofChar? c = some q ↔ c = q.char := by
  constructor
  · intro h
    unfold ofChar? at h
    split at h
    · cases h; assumption
    · split at h
      · cases h; assumption
      · cases h
  · rintro rfl
    cases q <;> decide

end Quote

inductive Fault where
  | tagNotClosed
  | attributeValueNotClosed (quote : Quote)
  | commentNotClosed
  | characterDataNotClosed
  | instructionNotClosed
  | declarationNotClosed
  | doctypeNotClosed
  | doctypeWithoutName
  | unknownMarkup
  | referenceNotClosed
  | wrongEndTag (opened found : String)
  | unmatchedEndTag (found : String)
deriving DecidableEq, Repr

namespace Fault

private def unclosed (construct mark : String) : String :=
  "syntax error: " ++ construct ++ " not closed: `" ++ mark ++ "` not found before end of input"

def message : Fault → String
  | tagNotClosed => unclosed "tag" ">"
  | attributeValueNotClosed quote => unclosed "attribute value" (String.singleton quote.char)
  | commentNotClosed => unclosed "comment" "-->"
  | characterDataNotClosed => unclosed "CDATA" "]]>"
  | instructionNotClosed => unclosed "processing instruction" "?>"
  | declarationNotClosed => unclosed "XML declaration" "?>"
  | doctypeNotClosed => unclosed "DOCTYPE" ">"
  | doctypeWithoutName =>
    "ill-formed document: `<!DOCTYPE>` declaration does not contain a name of a document type"
  | unknownMarkup => "syntax error: unknown or missed symbol in markup"
  | referenceNotClosed =>
    "ill-formed document: entity or character reference not closed: `;` not found before end of input"
  | wrongEndTag opened found =>
    "ill-formed document: expected `</" ++ opened ++ ">`, but `</" ++ found ++ ">` was found"
  | unmatchedEndTag found =>
    "ill-formed document: close tag `</" ++ found ++ ">` does not match any open tag"

end Fault

end RegistryBindings.Markup
