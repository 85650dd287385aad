import RegistryBindings.Markup.Fault
import RegistryBindings.Text.Search

/-!
# Tags and their attributes

A tag runs to the first closing bracket outside quotes. Its name is what stands before the first space,
and the rest is a list of attributes. Reading attributes never fails: one that is malformed, or that
repeats an earlier name, is passed over, and the walk goes on at the place its malformation leaves. The
values are the raw characters between the quotes.
-/

namespace RegistryBindings.Markup

open Text

def isSpace (c : Char) : Bool :=
  c == ' ' || c == '\t' || c == '\r' || c == '\n'

structure Attribute where
  name : String
  value : String
deriving DecidableEq, Repr

structure Tag where
  name : String
  attributes : List Attribute
deriving DecidableEq, Repr

namespace Tag

def value? (tag : Tag) (name : String) : Option String :=
  (tag.attributes.find? (·.name = name)).map (·.value)

end Tag

/-- A mapped result is a success only where the result itself is one. -/
theorem eq_ok_of_map_eq_ok {ε α β : Type} {f : α → β} {result : Except ε α} {b : β}
    (h : result.map f = .ok b) : ∃ a, result = .ok a ∧ f a = b := by
  cases result with
  | error => cases h
  | ok a => exact ⟨a, rfl, Except.ok.inj h⟩

/-- The characters of a tag up to its closing bracket, and what follows it. `quote?` is the quote that
is open where the text begins. -/
def closeTag (quote? : Option Quote) : List Char → Except Fault (List Char × List Char)
  | [] =>
    match quote? with
    | none => .error .tagNotClosed
    | some quote => .error (.attributeValueNotClosed quote)
  | c :: text =>
    match quote? with
    | none =>
      if c = '>' then .ok ([], text)
      else (closeTag (Quote.ofChar? c) text).map fun (inside, rest) => (c :: inside, rest)
    | some quote =>
      (closeTag (if c = quote.char then none else some quote) text).map
        fun (inside, rest) => (c :: inside, rest)

theorem length_of_closeTag {quote? : Option Quote} {text inside rest : List Char}
    (h : closeTag quote? text = .ok (inside, rest)) : rest.length < text.length := by
  induction text generalizing quote? inside with
  | nil => cases quote? <;> cases h
  | cons c text ih =>
    have step {quote? : Option Quote}
        (h : (closeTag quote? text).map (fun (inside, rest) => (c :: inside, rest)) =
          .ok (inside, rest)) : rest.length < (c :: text).length := by
      obtain ⟨found, hread, hfound⟩ := eq_ok_of_map_eq_ok h
      cases hfound
      exact Nat.lt_succ_of_lt (ih hread)
    unfold closeTag at h
    split at h
    · split at h
      · cases h; exact Nat.lt_succ_self _
      · exact step h
    · exact step h

/-- The characters that may stand in an attribute's name after the first one, which may be any. -/
def isNameChar (c : Char) : Bool :=
  c != '=' && !isSpace c

/-- What follows an attribute's name and the spaces after it, in the text after the name's first
character. -/
def afterName (text : List Char) : List Char :=
  (text.dropWhile isNameChar).dropWhile isSpace

theorem length_afterName_le (text : List Char) : (afterName text).length ≤ text.length :=
  Nat.le_trans (length_dropWhile_le isSpace _) (length_dropWhile_le isNameChar text)

/-- The attributes in the text after a tag's name. `seen` holds the names met so far. -/
def readAttributes (seen : List String) (text : List Char) : List Attribute :=
  match hstart : text.dropWhile isSpace with
  | [] => []
  | c :: rest =>
    have hrest : rest.length < text.length := length_lt_of_dropWhile hstart
    let name := String.ofList (c :: rest.takeWhile isNameChar)
    match hname : afterName rest with
    | [] => []
    | d :: more =>
      have hmore : (d :: more).length ≤ rest.length := hname ▸ length_afterName_le rest
      have hmore : more.length < rest.length := hmore
      if d = '=' then
        if name ∈ seen then
          have : (more.dropWhile (!isSpace ·)).length < text.length := by
            have := length_dropWhile_le (!isSpace ·) more
            omega
          readAttributes seen (more.dropWhile (!isSpace ·))
        else
          match hvalue : more.dropWhile isSpace with
          | [] => []
          | q :: body =>
            have hbody : body.length < more.length := length_lt_of_dropWhile hvalue
            match Quote.ofChar? q with
            | none =>
              have : ((q :: body).dropWhile (!isSpace ·)).length < text.length := by
                have := length_dropWhile_le (!isSpace ·) (q :: body)
                rw [List.length_cons] at this
                omega
              readAttributes (name :: seen) ((q :: body).dropWhile (!isSpace ·))
            | some _ =>
              match hend : after? [q] body with
              | none => []
              | some next =>
                have : next.length < text.length := by
                  have := length_le_of_after? hend
                  omega
                ⟨name, String.ofList (body.takeWhile (· ≠ q))⟩ :: readAttributes (name :: seen) next
      else
        have : (d :: more).length < text.length := Nat.lt_of_le_of_lt hmore hrest
        readAttributes seen (d :: more)
termination_by text.length

def Tag.ofText (text : List Char) : Tag where
  name := String.ofList (text.takeWhile (!isSpace ·))
  attributes := readAttributes [] (text.dropWhile (!isSpace ·))

end RegistryBindings.Markup
