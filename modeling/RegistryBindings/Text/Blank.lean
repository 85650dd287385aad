import RegistryBindings.Text.Search

/-!
# Blank characters, words and lists

The white space here is the Unicode property White_Space. Texts are trimmed of it, cut into words at
it, and a list written in one string is cut at its separator and its items are trimmed.
-/

namespace RegistryBindings.Text

/-- The characters of the Unicode property White_Space. -/
def isBlank (c : Char) : Bool :=
  let n := c.toNat
  (0x9 ≤ n && n ≤ 0xD) || n == 0x20 || n == 0x85 || n == 0xA0 || n == 0x1680 ||
    (0x2000 ≤ n && n ≤ 0x200A) || n == 0x2028 || n == 0x2029 || n == 0x202F || n == 0x205F || n == 0x3000

def trim (text : List Char) : List Char :=
  ((text.dropWhile isBlank).reverse.dropWhile isBlank).reverse

/-- The maximal runs of characters that are not blank, in order. -/
def words (text : List Char) : List (List Char) :=
  match h : text.dropWhile isBlank with
  | [] => []
  | c :: rest =>
    have : (rest.dropWhile (!isBlank ·)).length < text.length :=
      Nat.lt_of_le_of_lt (length_dropWhile_le _ rest) (length_lt_of_dropWhile h)
    (c :: rest.takeWhile (!isBlank ·)) :: words (rest.dropWhile (!isBlank ·))
termination_by text.length

/-- The text with every run of blanks replaced by one space and none at its ends. -/
def collapse (text : List Char) : List Char :=
  [' '].intercalate (words text)

/-- The pieces between the separators, of which there is one more than separators. -/
def pieces (separator : Char) : List Char → List (List Char)
  | [] => [[]]
  | c :: text =>
    if c = separator then [] :: pieces separator text
    else
      match pieces separator text with
      | [] => [[c]]
      | piece :: rest => (c :: piece) :: rest

/-- The items of a list written in one text: its pieces, trimmed, without the empty ones. -/
def listItems (separator : Char) (text : String) : List String :=
  (((pieces separator text.toList).map trim).filter (· ≠ [])).map String.ofList

end RegistryBindings.Text
