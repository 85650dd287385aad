import RegistryBindings.Markup.Tag

/-!
# Document type declarations

A declaration is passed over whole, so only its end matters: the first closing bracket outside quotes,
or, once an internal subset has opened, the first closing bracket after the subset. Inside the subset
comments, instructions and declarations are passed over in turn, so that a square bracket in one of them
does not close it.
-/

namespace RegistryBindings.Markup

open Text

/-- What follows a piece of markup inside an internal subset. The text begins after its opening
bracket. Quotes hide a closing bracket only where literals may stand. -/
def afterSubsetMarkup? (text : List Char) : Option (List Char) :=
  if let some comment := strip? "!--".toList text then after? "-->".toList comment
  else if let some instruction := strip? "?".toList text then after? "?>".toList instruction
  else if ["!ENTITY", "!ATTLIST", "!NOTATION"].any fun name => (strip? name.toList text).isSome then
    (closeTag none text).toOption.map (·.2)
  else after? ['>'] text

theorem length_of_afterSubsetMarkup? {text rest : List Char} (h : afterSubsetMarkup? text = some rest) :
    rest.length < text.length := by
  unfold afterSubsetMarkup? at h
  split at h
  · next hmark => exact Nat.lt_of_lt_of_le (length_lt_of_after? (by decide) h) (length_le_of_strip? hmark)
  · split at h
    · next hmark => exact Nat.lt_of_lt_of_le (length_lt_of_after? (by decide) h) (length_le_of_strip? hmark)
    · split at h
      · cases hread : closeTag none text with
        | error => rw [hread] at h; cases h
        | ok found =>
          rw [hread] at h
          cases h
          exact length_of_closeTag hread
      · exact length_lt_of_after? (by decide) h

/-- What follows a document type declaration whose internal subset begins with the text. -/
def afterSubset? : List Char → Option (List Char)
  | [] => none
  | c :: text =>
    if c = ']' then after? ['>'] text
    else if c = '<' then
      match h : afterSubsetMarkup? text with
      | none => none
      | some rest =>
        have : rest.length < text.length := length_of_afterSubsetMarkup? h
        afterSubset? rest
    else afterSubset? text
termination_by text => text.length

theorem length_of_afterSubset? {text rest : List Char} (h : afterSubset? text = some rest) :
    rest.length < text.length := by
  fun_induction afterSubset? text with
  | case1 => cases h
  | case2 text => exact Nat.lt_succ_of_lt (length_lt_of_after? (by decide) h)
  | case3 => cases h
  | case4 text next hnext hlt _ ih => exact Nat.lt_succ_of_lt (Nat.lt_trans (ih h) hlt)
  | case5 c text _ _ ih => exact Nat.lt_succ_of_lt (ih h)

def afterDoctype? (quote? : Option Quote) : List Char → Option (List Char)
  | [] => none
  | c :: text =>
    match quote? with
    | some quote => afterDoctype? (if c = quote.char then none else some quote) text
    | none =>
      if c = '>' then some text
      else if c = '[' then afterSubset? text
      else afterDoctype? (Quote.ofChar? c) text

theorem length_of_afterDoctype? {quote? : Option Quote} {text rest : List Char}
    (h : afterDoctype? quote? text = some rest) : rest.length < text.length := by
  fun_induction afterDoctype? quote? text with
  | case1 => cases h
  | case2 _ text _ ih => exact Nat.lt_succ_of_lt (ih h)
  | case3 text => cases h; exact Nat.lt_succ_self _
  | case4 text => exact Nat.lt_succ_of_lt (length_of_afterSubset? h)
  | case5 c text _ _ ih => exact Nat.lt_succ_of_lt (ih h)

/-- What follows a document type declaration. The text begins after its opening bracket and exclamation
mark. The keyword may be in either case. -/
def skipDoctype (text : List Char) : Except Fault (List Char) :=
  if (text.take 7).map Char.toLower = "doctype".toList then
    match afterDoctype? none (text.drop 7) with
    | none => .error .doctypeNotClosed
    | some rest =>
      if ((text.drop 7).dropWhile isSpace).head? = some '>' then .error .doctypeWithoutName
      else .ok rest
  else .error .doctypeNotClosed

theorem length_of_skipDoctype {text rest : List Char} (h : skipDoctype text = .ok rest) :
    rest.length < text.length := by
  unfold skipDoctype at h
  split at h
  · split at h
    · cases h
    · next hrest =>
      split at h
      · cases h
      · cases h
        have := length_of_afterDoctype? hrest
        rw [List.length_drop] at this
        omega
  · cases h

end RegistryBindings.Markup
