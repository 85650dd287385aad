import RegistryBindings.Text.Search

/-!
# Literals that fit in a word

The enum types of the targets are words of 32 bits, so an enumerant is bound only if its literal denotes a
number below two to the thirty-second: decimal digits, or `0x` and up to eight hexadecimal digits.
-/

namespace RegistryBindings.Binding

open Text

def isHexDigit (c : Char) : Bool :=
  c.isDigit || ('a' ≤ c && c ≤ 'f') || ('A' ≤ c && c ≤ 'F')

def decimalValue (digits : List Char) : Nat :=
  digits.foldl (fun value c => 10 * value + (c.toNat - '0'.toNat)) 0

def wordSize : Nat := 0x100000000

def fitsWord (literal : String) : Bool :=
  match strip? ['0', 'x'] literal.toList with
  | some digits => 0 < digits.length && digits.length ≤ 8 && digits.all isHexDigit
  | none =>
    literal.toList ≠ [] && literal.toList.all Char.isDigit && decimalValue literal.toList < wordSize

end RegistryBindings.Binding
