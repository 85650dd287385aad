import Mathlib.Data.List.Induction
import Mathlib.Data.Nat.Digits.Defs
import RegistryBindings.Binding.Literal
import RegistryBindings.Text.Blank

/-!
# Which literals fit in a word

A literal denotes a number if it is a row of decimal digits, or `0x` and a row of hexadecimal ones, and nothing else.
It fits in a word if it is decimal and its number is below two to the thirty-second, or if it is hexadecimal and has
no more than eight digits. The second rule is about the digits and not about the number, but eight hexadecimal digits
never denote a greater one. So what fits denotes a number that does.
-/

namespace RegistryBindings.Binding

open Text

/-! ### Numbers -/

/-- What a digit counts, in any base up to sixteen. -/
def digitValue (c : Char) : Nat :=
  if c.isDigit then c.toNat - '0'.toNat
  else if c.isUpper then c.toNat - 'A'.toNat + 10
  else c.toNat - 'a'.toNat + 10

/-- The number that digits denote, of which the first counts most. -/
def numeral (base : Nat) (digits : List Char) : Nat :=
  Nat.ofDigits base (digits.map digitValue).reverse

theorem numeral_append_singleton (base : Nat) (digits : List Char) (c : Char) :
    numeral base (digits ++ [c]) = digitValue c + base * numeral base digits := by
  rw [numeral, List.map_append, List.map_singleton, List.reverse_append, List.reverse_singleton,
    List.singleton_append, Nat.ofDigits_cons]
  rfl

/-- Zeros in front of digits do not count. -/
theorem numeral_zeros_append (base count : Nat) (digits : List Char) :
    numeral base (List.replicate count '0' ++ digits) = numeral base digits := by
  have hzero : digitValue '0' = 0 := rfl
  rw [numeral, List.map_append, List.map_replicate, hzero, List.reverse_append, List.reverse_replicate,
    Nat.ofDigits_append_replicate_zero]
  rfl

/-- Reading digits from the left gives the number that they denote. -/
theorem decimalValue_eq_numeral {digits : List Char} (h : ∀ c ∈ digits, c.isDigit = true) :
    decimalValue digits = numeral 10 digits := by
  induction digits using List.reverseRecOn with
  | nil => rfl
  | append_singleton digits c ih =>
    obtain ⟨hdigits, hc⟩ := List.forall_mem_append.mp h
    have hvalue : digitValue c = c.toNat - '0'.toNat := if_pos (hc c (List.mem_singleton_self c))
    rw [numeral_append_singleton, ← ih hdigits, hvalue, decimalValue, List.foldl_append]
    exact Nat.add_comm _ _

theorem toNat_of_isDigit {c : Char} (h : c.isDigit = true) : 48 ≤ c.toNat ∧ c.toNat ≤ 57 := by
  obtain ⟨hfirst, hlast⟩ := Bool.and_eq_true_iff.mp h
  exact ⟨UInt32.le_iff_toNat_le.mp (of_decide_eq_true hfirst), UInt32.le_iff_toNat_le.mp (of_decide_eq_true hlast)⟩

theorem toNat_of_isHexDigit {c : Char} (h : isHexDigit c = true) :
    (48 ≤ c.toNat ∧ c.toNat ≤ 57) ∨ (65 ≤ c.toNat ∧ c.toNat ≤ 70) ∨ (97 ≤ c.toNat ∧ c.toNat ≤ 102) := by
  rw [isHexDigit, Bool.or_eq_true, Bool.or_eq_true, Bool.and_eq_true, Bool.and_eq_true] at h
  rcases h with (hdigit | ⟨hfirst, hlast⟩) | ⟨hfirst, hlast⟩
  · exact .inl (toNat_of_isDigit hdigit)
  · exact .inr (.inr ⟨UInt32.le_iff_toNat_le.mp (of_decide_eq_true hfirst),
      UInt32.le_iff_toNat_le.mp (of_decide_eq_true hlast)⟩)
  · exact .inr (.inl ⟨UInt32.le_iff_toNat_le.mp (of_decide_eq_true hfirst),
      UInt32.le_iff_toNat_le.mp (of_decide_eq_true hlast)⟩)

theorem isHexDigit_of_isDigit {c : Char} (h : c.isDigit = true) : isHexDigit c = true := by
  rw [isHexDigit, h]
  rfl

theorem digitValue_lt {c : Char} (h : isHexDigit c = true) : digitValue c < 16 := by
  have hbounds := toNat_of_isHexDigit h
  have hzero : '0'.toNat = 48 := rfl
  have hcapital : 'A'.toNat = 65 := rfl
  have hsmall : 'a'.toNat = 97 := rfl
  rw [digitValue]
  split
  · next hdigit =>
    have := toNat_of_isDigit hdigit
    omega
  · split
    · next hupper =>
      have hletters : 65 ≤ c.val ∧ c.val ≤ 90 := of_decide_eq_true hupper
      have : 65 ≤ c.toNat := UInt32.le_iff_toNat_le.mp hletters.1
      have : c.toNat ≤ 90 := UInt32.le_iff_toNat_le.mp hletters.2
      omega
    · omega

/-- A number is bounded by how many digits it has. -/
theorem numeral_lt {digits : List Char} (h : ∀ c ∈ digits, isHexDigit c = true) :
    numeral 16 digits < 16 ^ digits.length := by
  have hdigits : ∀ value ∈ (digits.map digitValue).reverse, value < 16 := by
    intro value hvalue
    obtain ⟨c, hc, rfl⟩ := List.mem_map.mp (List.mem_reverse.mp hvalue)
    exact digitValue_lt (h c hc)
  have hbound := Nat.ofDigits_lt_base_pow_length (by decide) hdigits
  rwa [List.length_reverse, List.length_map] at hbound

/-! ### Literals -/

structure IsDecimal (digits : List Char) : Prop where
  ne_nil : digits ≠ []
  isDigit : ∀ c ∈ digits, c.isDigit = true

structure IsHexadecimal (digits : List Char) : Prop where
  ne_nil : digits ≠ []
  isHexDigit : ∀ c ∈ digits, isHexDigit c = true

/-- The literal is a number, written in one of the two ways there are. -/
inductive Denotes : String → Nat → Prop
  | decimal {literal : String} (h : IsDecimal literal.toList) : Denotes literal (numeral 10 literal.toList)
  | hexadecimal {digits : String} (h : IsHexadecimal digits.toList) :
    Denotes ("0x" ++ digits) (numeral 16 digits.toList)

def IsWordLiteral (literal : String) : Prop :=
  (IsDecimal literal.toList ∧ numeral 10 literal.toList ≤ 2 ^ 32 - 1) ∨
    ∃ digits : String, literal = "0x" ++ digits ∧ IsHexadecimal digits.toList ∧ digits.toList.length ≤ 8

theorem not_isDecimal_of_mark {digits : String} : ¬ IsDecimal ("0x" ++ digits).toList := by
  intro h
  have hx : 'x'.isDigit = true := h.isDigit 'x' (by simp)
  cases hx

/-- A literal fits in a word exactly if it is one of a word. -/
theorem fitsWord_iff {literal : String} : fitsWord literal = true ↔ IsWordLiteral literal := by
  have hsize : ∀ value, value < wordSize ↔ value ≤ 2 ^ 32 - 1 := fun value => Nat.lt_iff_le_pred (by decide)
  rw [fitsWord]
  split
  · next digits hdigits =>
    obtain rfl : literal = "0x" ++ String.ofList digits := by
      rw [← String.ofList_toList (s := literal), eq_append_of_strip? hdigits, String.ofList_append]
    simp only [Bool.and_eq_true, decide_eq_true_eq, List.all_eq_true, List.length_pos_iff]
    constructor
    · rintro ⟨⟨hne, hlength⟩, hhex⟩
      refine .inr ⟨String.ofList digits, rfl, ?_⟩
      rw [String.toList_ofList]
      exact ⟨⟨hne, hhex⟩, hlength⟩
    · rintro (⟨hdecimal, -⟩ | ⟨other, hother, hhex, hlength⟩)
      · exact absurd hdecimal not_isDecimal_of_mark
      · have hlists := congrArg String.toList hother
        rw [String.toList_append, String.toList_append] at hlists
        obtain rfl : String.ofList digits = other := String.toList_injective (List.append_cancel_left hlists)
        rw [String.toList_ofList] at hhex hlength
        exact ⟨⟨hhex.ne_nil, hlength⟩, hhex.isHexDigit⟩
  · next hnone =>
    simp only [Bool.and_eq_true, decide_eq_true_eq, List.all_eq_true]
    constructor
    · rintro ⟨⟨hne, hdigits⟩, hvalue⟩
      rw [decimalValue_eq_numeral hdigits, hsize] at hvalue
      exact .inl ⟨⟨hne, hdigits⟩, hvalue⟩
    · rintro (⟨hdecimal, hvalue⟩ | ⟨digits, rfl, -⟩)
      · rw [← hsize, ← decimalValue_eq_numeral hdecimal.isDigit] at hvalue
        exact ⟨⟨hdecimal.ne_nil, hdecimal.isDigit⟩, hvalue⟩
      · rw [String.toList_append] at hnone
        cases (strip?_append ['0', 'x'] digits.toList).symm.trans hnone

/-- What fits in a word denotes a number that does. -/
theorem exists_denotes_of_fitsWord {literal : String} (h : fitsWord literal = true) :
    ∃ value, Denotes literal value ∧ value < 2 ^ 32 := by
  rcases fitsWord_iff.mp h with ⟨hdecimal, hvalue⟩ | ⟨digits, rfl, hhex, hlength⟩
  · exact ⟨_, .decimal hdecimal, Nat.lt_of_le_pred (by decide) hvalue⟩
  · refine ⟨_, .hexadecimal hhex, ?_⟩
    calc numeral 16 digits.toList < 16 ^ digits.toList.length := numeral_lt hhex.isHexDigit
      _ ≤ 16 ^ 8 := Nat.pow_le_pow_right (by decide) hlength
      _ = 2 ^ 32 := by decide

/-! ### What fits in no word -/

/-- Characters that other notations for numbers allow: signs, separators, the capital mark of a hexadecimal number,
white space, and everything that is not ASCII. -/
def IsForeign (c : Char) : Prop :=
  c ∈ ['+', '-', '_', 'X'] ∨ isBlank c = true ∨ 127 < c.toNat

theorem not_isForeign {c : Char} (h : isHexDigit c = true ∨ c = 'x') : ¬ IsForeign c := by
  rcases h with h | rfl
  · have hbounds := toNat_of_isHexDigit h
    rintro (hmem | hblank | hbeyond)
    · obtain rfl | rfl | rfl | rfl : c = '+' ∨ c = '-' ∨ c = '_' ∨ c = 'X' := by simpa using hmem
      all_goals cases h
    · simp only [isBlank, Bool.or_eq_true, Bool.and_eq_true, decide_eq_true_eq, beq_iff_eq] at hblank
      omega
    · omega
  · rintro (hmem | hblank | hbeyond)
    · exact absurd hmem (by decide)
    · exact absurd hblank (by decide)
    · exact absurd hbeyond (by decide)

/-- All of a literal that fits is digits, or the mark in front of them. -/
theorem isHexDigit_or_eq_mark {literal : String} (h : fitsWord literal = true) {c : Char} (hc : c ∈ literal.toList) :
    isHexDigit c = true ∨ c = 'x' := by
  rcases fitsWord_iff.mp h with ⟨hdecimal, -⟩ | ⟨digits, rfl, hhex, -⟩
  · exact .inl (isHexDigit_of_isDigit (hdecimal.isDigit c hc))
  · rw [String.toList_append, List.mem_append] at hc
    rcases hc with hmark | hdigit
    · obtain rfl | rfl : c = '0' ∨ c = 'x' := by simpa using hmark
      · exact .inl rfl
      · exact .inr rfl
    · exact .inl (hhex.isHexDigit c hdigit)

/-- Zeros may stand in front of a decimal literal in any number. -/
theorem fitsWord_zeros_append {literal : String} (h : IsDecimal literal.toList) (count : Nat) :
    fitsWord (String.ofList (List.replicate count '0') ++ literal) = fitsWord literal := by
  have hzeros : IsDecimal (String.ofList (List.replicate count '0') ++ literal).toList := by
    rw [String.toList_append, String.toList_ofList]
    refine ⟨List.append_ne_nil_of_right_ne_nil _ h.ne_nil, fun c hc => ?_⟩
    rcases List.mem_append.mp hc with hzero | hdigit
    · rw [List.eq_of_mem_replicate hzero]
      rfl
    · exact h.isDigit c hdigit
  have hdecimal {literal : String} (h : IsDecimal literal.toList) :
      fitsWord literal = true ↔ numeral 10 literal.toList ≤ 2 ^ 32 - 1 := by
    rw [fitsWord_iff]
    refine ⟨?_, fun hvalue => .inl ⟨h, hvalue⟩⟩
    rintro (⟨-, hvalue⟩ | ⟨digits, rfl, -⟩)
    · exact hvalue
    · exact absurd h not_isDecimal_of_mark
  rw [Bool.eq_iff_iff, hdecimal hzeros, hdecimal h, String.toList_append, String.toList_ofList, numeral_zeros_append]

end RegistryBindings.Binding
