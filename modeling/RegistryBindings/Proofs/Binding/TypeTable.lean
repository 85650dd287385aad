import RegistryBindings.Binding.TypeTable

/-!
# What the table of types says

A token that is known stands in a row of the table and means what the row says, so what holds of every token of every
row holds of every token that is known.

A pointer to a type is spelled with the type's own token, a space and an asterisk, and `const` in front if what it
leads to may not be written. Where the table knows such a spelling it says by itself what the pointer leads to. That
is the scalar that the token means, with two exceptions: the pointers to `GLbyte` and `GLushort` have rows that they
share with the integer of the same width and the other sign.
-/

namespace RegistryBindings.Binding

namespace TypeTable

variable {token : String} {type : NativeType}

/-- What holds of every token of every row holds of the tokens that are known. -/
@[elab_as_elim]
theorem of_lookup? {Holds : String → NativeType → Prop} (hrows : ∀ row ∈ rows, ∀ token ∈ row.1, Holds token row.2)
    (h : lookup? token = some type) : Holds token type := by
  obtain ⟨row, hrow, rfl⟩ := Option.map_eq_some_iff.mp h
  have hcontains : row.1.contains token = true := by simpa using List.find?_some hrow
  exact hrows row (List.mem_of_find?_eq_some hrow) token (List.contains_iff_mem.mp hcontains)

end TypeTable

/-! ### Pointers to scalars -/

def pointerToken : Mutability → String → String
  | .constant, token => "const " ++ token ++ " *"
  | .mutable, token => token ++ " *"

/-- The integer of the same width and the other sign, if there is one. -/
def Scalar.otherSign : Scalar → Scalar
  | .int8 => .uint8
  | .uint8 => .int8
  | .int16 => .uint16
  | .uint16 => .int16
  | .int32 => .uint32
  | .uint32 => .int32
  | .int64 => .uint64
  | .uint64 => .int64
  | scalar => scalar

/-- The tokens whose pointers are in a row with those of the other sign. -/
def misreadPointees : List String :=
  ["GLbyte", "GLushort"]

def pointeeOf (token : String) (scalar : Scalar) : Scalar :=
  if token ∈ misreadPointees then scalar.otherSign else scalar

/-- The table does not know the pointer to the type of the token, or says of it what it leads to. -/
def KnowsPointer (mutability : Mutability) (token : String) : NativeType → Prop
  | .scalar scalar => TypeTable.lookup? (pointerToken mutability token) ∈
      [none, some (.pointer (pointeeOf token scalar) mutability 1)]
  | .pointer .. | .enum _ | .verbatim _ => True

instance (mutability : Mutability) (token : String) : (type : NativeType) →
    Decidable (KnowsPointer mutability token type)
  | .scalar _ => inferInstanceAs (Decidable (_ ∈ [_, _]))
  | .pointer .. | .enum _ | .verbatim _ => .isTrue trivial

theorem knowsPointer_rows (mutability : Mutability) :
    ∀ row ∈ TypeTable.rows, ∀ token ∈ row.1, KnowsPointer mutability token row.2 := by
  cases mutability with
  | constant => decide +kernel
  | mutable => decide +kernel

namespace NativeType

variable {token : String} {scalar : Scalar}

theorem ofToken_of_lookup? {type : NativeType} (h : TypeTable.lookup? token = some type) : ofToken token = type := by
  rw [ofToken, h]

theorem ofToken_of_lookup?_eq_none (h : TypeTable.lookup? token = none) :
    ofToken token = if '*' ∈ token.toList then opaquePointer else verbatim token := by
  rw [ofToken, h]
  simp only [List.contains_iff_mem]

/-- What the table does not know is an opaque pointer or is passed on, and the table knows scalars and pointers. -/
theorem ofToken_cases (token : String) :
    (∃ scalar, ofToken token = .scalar scalar) ∨
      (∃ pointee mutability depth, ofToken token = .pointer pointee mutability depth) ∨
        ofToken token = .verbatim token := by
  have hrows : ∀ row ∈ TypeTable.rows, row.2 matches .scalar _ | .pointer .. := by decide
  have hmatches {type : NativeType} :
      TypeTable.lookup? token = some type → (type matches .scalar _ | .pointer ..) :=
    fun htype => TypeTable.of_lookup? (fun row hrow _ _ => hrows row hrow) htype
  cases hlookup : TypeTable.lookup? token with
  | some type =>
    have hknown := hmatches hlookup
    rw [ofToken_of_lookup? hlookup]
    cases type with
    | scalar scalar => exact .inl ⟨scalar, rfl⟩
    | pointer pointee mutability depth => exact .inr (.inl ⟨pointee, mutability, depth, rfl⟩)
    | enum group => cases hknown
    | verbatim other => cases hknown
  | none =>
    rw [ofToken_of_lookup?_eq_none hlookup]
    split
    · exact .inr (.inl ⟨.void, .constant, 1, rfl⟩)
    · exact .inr (.inr rfl)

/-- An enum whose group is not known is a word of 32 bits. -/
theorem ofToken_enumSpelling : ofToken "GLenum" = .scalar .uint32 := by
  decide +kernel

theorem ofToken_ne_enum (token group : String) : ofToken token ≠ .enum group := by
  rcases ofToken_cases token with ⟨scalar, h⟩ | ⟨pointee, mutability, depth, h⟩ | h <;> simp [h]

/-- Only the table makes a token a scalar. -/
theorem lookup?_of_ofToken_eq_scalar (h : ofToken token = .scalar scalar) :
    TypeTable.lookup? token = some (.scalar scalar) := by
  cases hlookup : TypeTable.lookup? token with
  | some type => rw [← ofToken_of_lookup? hlookup, h]
  | none =>
    rw [ofToken_of_lookup?_eq_none hlookup] at h
    split at h <;> cases h

theorem otherSign_ne (hmem : token ∈ misreadPointees) (h : ofToken token = .scalar scalar) :
    scalar.otherSign ≠ scalar := by
  obtain rfl | rfl : token = "GLbyte" ∨ token = "GLushort" := by simpa [misreadPointees] using hmem
  · have hbyte : ofToken "GLbyte" = .scalar .int8 := by decide +kernel
    cases hbyte.symm.trans h
    decide
  · have hushort : ofToken "GLushort" = .scalar .uint16 := by decide +kernel
    cases hushort.symm.trans h
    decide

/-- A pointer that the table knows, to a type that is a scalar, leads to that scalar. For `GLbyte` and `GLushort` it
leads to the integer of the same width and the other sign. -/
theorem ofToken_pointerToken (h : ofToken token = .scalar scalar) {mutability : Mutability}
    (hknown : TypeTable.lookup? (pointerToken mutability token) ≠ none) :
    (token ∉ misreadPointees → ofToken (pointerToken mutability token) = .pointer scalar mutability 1) ∧
      (token ∈ misreadPointees →
        ofToken (pointerToken mutability token) = .pointer scalar.otherSign mutability 1 ∧
          scalar.otherSign ≠ scalar) := by
  have hknows : KnowsPointer mutability token (.scalar scalar) :=
    TypeTable.of_lookup? (knowsPointer_rows mutability) (lookup?_of_ofToken_eq_scalar h)
  have hlookup : TypeTable.lookup? (pointerToken mutability token) =
      some (.pointer (pointeeOf token scalar) mutability 1) := by
    rcases List.mem_cons.mp hknows with hnone | hsome
    · exact absurd hnone hknown
    · exact List.mem_singleton.mp hsome
  rw [ofToken_of_lookup? hlookup, pointeeOf]
  refine ⟨fun hmem => ?_, fun hmem => ⟨?_, otherSign_ne hmem h⟩⟩
  · rw [if_neg hmem]
  · rw [if_pos hmem]

theorem ofToken_pointerToken_int64 :
    ofToken "GLint64EXT" = .scalar .int64 ∧ TypeTable.lookup? "const GLint64EXT *" ≠ none ∧
      ofToken "const GLint64EXT *" = .pointer .int64 .constant 1 := by
  have hscalar : ofToken "GLint64EXT" = .scalar .int64 := by decide +kernel
  have hknown : TypeTable.lookup? (pointerToken .constant "GLint64EXT") ≠ none := by decide +kernel
  exact ⟨hscalar, hknown, (ofToken_pointerToken hscalar hknown).1 (by decide)⟩

/-- The pointer to an unsigned word of 16 bits is read as one to a signed word. -/
theorem ofToken_pointerToken_ushort_ne :
    ¬ ∀ token scalar mutability, ofToken token = .scalar scalar →
      TypeTable.lookup? (pointerToken mutability token) ≠ none →
        ofToken (pointerToken mutability token) = .pointer scalar mutability 1 := by
  intro hall
  have hpointer := hall "GLushort" .uint16 .mutable (by decide +kernel) (by decide +kernel)
  exact absurd hpointer (by decide +kernel)

end NativeType

end RegistryBindings.Binding
