import RegistryBindings.Artifact.StaticExtension
import RegistryBindings.Artifact.LoaderStruct
import RegistryBindings.Proofs.Text.Marks

/-!
# What a spelled type says in any language

The two languages spell a type differently, and each loses a little: Rust has the same word for a boolean
and an unsigned byte, and Beef does not say whether a pointee may be written. A shape is what is left in
both. It is read back from the spelling, as long as the names of groups and the tokens that are passed on
cannot be taken for something else.
-/

namespace RegistryBindings.Binding

/-- The scalar that a scalar is passed as. Booleans are bytes. -/
def Scalar.carrier : Scalar → Scalar
  | .bool => .uint8
  | scalar => scalar

end RegistryBindings.Binding

namespace RegistryBindings.Artifact

open Binding Text

inductive TypeShape where
  | scalar (carrier : Scalar)
  | pointer (carrier? : Option Scalar) (stars : Nat)
  | named (name : String)
deriving DecidableEq, Repr

def TypeShape.ofType : NativeType → TypeShape
  | .scalar word => .scalar word.carrier
  | .pointer pointee _ depth => .pointer (some pointee.carrier) depth
  | .enum group => .named group
  | .verbatim token => .named token

/-! ### Reading a spelling -/

def scalars : List Scalar :=
  [.bool, .int8, .uint8, .int16, .uint16, .int32, .uint32, .int64, .uint64, .intPtr, .float, .double,
    .char8, .void]

def carrierOf? (spelling : Scalar → String) (text : String) : Option Scalar :=
  (scalars.find? fun scalar => spelling scalar = text).map Scalar.carrier

def wordShape (spelling : Scalar → String) (text : String) : TypeShape :=
  match carrierOf? spelling text with
  | some carrier => .scalar carrier
  | none => .named text

/-- In Rust a pointer's asterisks come first, and its pointee is the last word. -/
def LoaderStruct.typeShape (text : String) : TypeShape :=
  if '*' ∈ text.toList then
    .pointer ((cutLast? ' ' text).bind fun found => carrierOf? LoaderStruct.pointeeName found.2)
      (text.toList.count '*')
  else wordShape LoaderStruct.scalarName text

def StaticExtension.typeShape (text : String) : TypeShape :=
  if '*' ∈ text.toList then
    .pointer (carrierOf? StaticExtension.scalarName (String.ofList (text.toList.filter (· ≠ '*'))))
      (text.toList.count '*')
  else wordShape StaticExtension.scalarName text

/-! ### Types that can be read back -/

def scalarSpellings : List String :=
  scalars.map LoaderStruct.scalarName ++ scalars.map StaticExtension.scalarName

def typeBreaks : List Char :=
  ['\n', ',', ':', '(', ')', '*']

/-- A type whose spelling is that of no other type. -/
def IsReadable : NativeType → Prop
  | .scalar _ => True
  | .pointer _ _ depth => 0 < depth
  | .enum group => IsIdentifier group ∧ group ∉ scalarSpellings
  | .verbatim token => (∀ c ∈ typeBreaks, c ∉ token.toList) ∧ token ∉ scalarSpellings

instance : (type : NativeType) → Decidable (IsReadable type)
  | .scalar _ => .isTrue trivial
  | .pointer _ _ depth => inferInstanceAs (Decidable (0 < depth))
  | .enum _ => inferInstanceAs (Decidable (_ ∧ _))
  | .verbatim _ => inferInstanceAs (Decidable (_ ∧ _))

theorem carrierOf?_eq_none {spelling : Scalar → String} {text : String}
    (h : text ∉ scalars.map spelling) : carrierOf? spelling text = none := by
  rw [carrierOf?, Option.map_eq_none_iff, List.find?_eq_none]
  intro scalar hscalar heq
  exact h (List.mem_map.mpr ⟨scalar, hscalar, of_decide_eq_true heq⟩)

theorem not_mem_of_isIdentifier {group : String} (h : IsIdentifier group) :
    ∀ c ∈ typeBreaks, c ∉ group.toList := by
  have hother : ∀ c ∈ typeBreaks, isIdentifierChar c = false := forall_mem_of_all (by decide)
  exact fun c hc => h.not_mem (hother c hc)

theorem not_mem_join_replicate {c : Char} {mark : String} (h : c ∉ mark.toList) (count : Nat) :
    c ∉ (String.join (List.replicate count mark)).toList := by
  induction count with
  | zero => simp
  | succ count ih =>
    rw [List.replicate_succ, String.join_cons, String.toList_append, List.mem_append, not_or]
    exact ⟨h, ih⟩

namespace LoaderStruct

theorem carrierOf?_scalarName (scalar : Scalar) :
    carrierOf? scalarName (scalarName scalar) = some scalar.carrier := by
  cases scalar <;> decide

theorem carrierOf?_pointeeName (scalar : Scalar) :
    carrierOf? pointeeName (pointeeName scalar) = some scalar.carrier := by
  cases scalar <;> decide

theorem not_mem_scalarName (scalar : Scalar) :
    ∀ c ∈ ['\n', ',', '*', ' '], c ∉ (scalarName scalar).toList := by
  cases scalar <;> exact forall_mem_of_all (by decide)

theorem not_mem_pointeeName (scalar : Scalar) :
    ∀ c ∈ ['\n', ',', ')', '*', ' '], c ∉ (pointeeName scalar).toList := by
  cases scalar <;> exact forall_mem_of_all (by decide)

/-- A word that is no scalar's is a name. -/
theorem typeShape_of_not_mem {name : String} (hstar : '*' ∉ name.toList) (h : name ∉ scalarSpellings) :
    typeShape name = .named name := by
  have hnone : carrierOf? scalarName name = none :=
    carrierOf?_eq_none fun hmem => h (List.mem_append_left _ hmem)
  rw [typeShape, if_neg hstar, wordShape, hnone]

theorem count_join_replicate (depth : Nat) :
    (String.join (List.replicate depth "*mut ")).toList.count '*' = depth := by
  induction depth with
  | zero => rfl
  | succ depth ih =>
    rw [List.replicate_succ, String.join_cons, String.toList_append, List.count_append, ih]
    exact Nat.add_comm 1 depth

/-- What a pointer that is one level deep begins with, but for the space. -/
def pointerMark : Mutability → String
  | .constant => "*const"
  | .mutable => "*mut"

/-- The asterisks of a pointer, a space, and the pointee. -/
theorem exists_spell_pointer (pointee : Scalar) (mutability : Mutability) {depth : Nat} (h : 0 < depth) :
    ∃ before, spell (.pointer pointee mutability depth) =
        before ++ (String.singleton ' ' ++ pointeeName pointee) ∧
      before.toList.count '*' = depth ∧ ∀ c ∈ ['\n', ',', ')'], c ∉ before.toList := by
  refine ⟨String.join (List.replicate (depth - 1) "*mut ") ++ pointerMark mutability, ?_, ?_, ?_⟩
  · cases mutability with
    | constant =>
      have hmark : "*const " = "*const" ++ String.singleton ' ' := rfl
      simp only [spell, pointerMark, hmark, String.append_assoc]
    | mutable =>
      have hmark : "*mut" ++ String.singleton ' ' = "*mut " := rfl
      simp only [spell, pointerMark, ← hmark, String.append_assoc]
  · have hmark : (pointerMark mutability).toList.count '*' = 1 := by cases mutability <;> decide
    rw [String.toList_append, List.count_append, count_join_replicate, hmark]
    omega
  · have hmark : ∀ c ∈ ['\n', ',', ')'], c ∉ (pointerMark mutability).toList := by
      cases mutability <;> exact forall_mem_of_all (by decide)
    have hlevel : ∀ c ∈ ['\n', ',', ')'], c ∉ "*mut ".toList := forall_mem_of_all (by decide)
    intro c hc
    rw [String.toList_append, List.mem_append, not_or]
    exact ⟨not_mem_join_replicate (hlevel c hc) _, hmark c hc⟩

theorem count_spell_pointer (pointee : Scalar) (mutability : Mutability) {depth : Nat} (h : 0 < depth) :
    (spell (.pointer pointee mutability depth)).toList.count '*' = depth := by
  obtain ⟨before, hspell, hcount, -⟩ := exists_spell_pointer pointee mutability h
  have hpointee : (pointeeName pointee).toList.count '*' = 0 :=
    List.count_eq_zero.mpr (not_mem_pointeeName pointee '*' (by decide))
  simp [hspell, hcount, hpointee]

theorem typeShape_spell {type : NativeType} (h : IsReadable type) :
    typeShape (spell type) = TypeShape.ofType type := by
  cases type with
  | scalar scalar =>
    simp only [spell, typeShape, not_mem_scalarName scalar '*' (by decide), if_false, wordShape,
      carrierOf?_scalarName, TypeShape.ofType]
  | pointer pointee mutability depth =>
    obtain ⟨before, hspell, -⟩ := exists_spell_pointer pointee mutability h
    have hcount := count_spell_pointer pointee mutability h
    have hspace : ' ' ∉ (pointeeName pointee).toList := not_mem_pointeeName pointee ' ' (by decide)
    have hmem : '*' ∈ (spell (.pointer pointee mutability depth)).toList :=
      List.count_pos_iff.mp (hcount.symm ▸ h)
    rw [typeShape, if_pos hmem, hcount, hspell, cutLast?_append hspace, Option.bind_some,
      carrierOf?_pointeeName, TypeShape.ofType]
  | enum group => exact typeShape_of_not_mem (not_mem_of_isIdentifier h.1 '*' (by decide)) h.2
  | verbatim token => exact typeShape_of_not_mem (h.1 '*' (by decide)) h.2

/-- Only the word for no value has a parenthesis in it. -/
theorem not_mem_spell {type : NativeType} (h : IsReadable type) :
    (∀ c ∈ ['\n', ','], c ∉ (spell type).toList) ∧ (type.isVoid = false → ')' ∉ (spell type).toList) := by
  cases type with
  | scalar scalar =>
    refine ⟨fun c hc => not_mem_scalarName scalar c (List.mem_append_left ['*', ' '] hc), ?_⟩
    cases scalar <;> decide
  | pointer pointee mutability depth =>
    obtain ⟨before, hspell, -, hbefore⟩ := exists_spell_pointer pointee mutability h
    have hboth : ∀ c ∈ ['\n', ',', ')'],
        c ∉ (spell (.pointer pointee mutability depth)).toList := by
      intro c hc
      have hspace : c ≠ ' ' := by
        rintro rfl
        exact absurd hc (by decide)
      have hpointee := not_mem_pointeeName pointee c (List.mem_append_left ['*', ' '] hc)
      simp [hspell, hbefore c hc, hspace, hpointee]
    exact ⟨fun c hc => hboth c (List.mem_append_left [')'] hc), fun _ => hboth ')' (by decide)⟩
  | enum group =>
    have hbreaks := not_mem_of_isIdentifier h.1
    exact ⟨fun c hc => hbreaks c (List.mem_append_left [':', '(', ')', '*'] hc),
      fun _ => hbreaks ')' (by decide)⟩
  | verbatim token =>
    exact ⟨fun c hc => h.1 c (List.mem_append_left [':', '(', ')', '*'] hc), fun _ => h.1 ')' (by decide)⟩

end LoaderStruct

namespace StaticExtension

theorem carrierOf?_scalarName (scalar : Scalar) :
    carrierOf? scalarName (scalarName scalar) = some scalar.carrier := by
  cases scalar <;> decide

theorem not_mem_scalarName (scalar : Scalar) :
    ∀ c ∈ '*' :: typeBreaks, c ∉ (scalarName scalar).toList := by
  cases scalar <;> exact forall_mem_of_all (by decide)

theorem typeShape_of_not_mem {name : String} (hstar : '*' ∉ name.toList) (h : name ∉ scalarSpellings) :
    typeShape name = .named name := by
  have hnone : carrierOf? scalarName name = none :=
    carrierOf?_eq_none fun hmem => h (List.mem_append_right _ hmem)
  rw [typeShape, if_neg hstar, wordShape, hnone]

theorem toList_join_replicate (depth : Nat) :
    (String.join (List.replicate depth "*")).toList = List.replicate depth '*' := by
  induction depth with
  | zero => simp
  | succ depth ih =>
    rw [List.replicate_succ, String.join_cons, String.toList_append, ih]
    rfl

theorem toList_spell_pointer (pointee : Scalar) (mutability : Mutability) (depth : Nat) :
    (spell (.pointer pointee mutability depth)).toList =
      (scalarName pointee).toList ++ List.replicate depth '*' := by
  rw [spell, String.toList_append, toList_join_replicate]

theorem count_spell_pointer (pointee : Scalar) (mutability : Mutability) (depth : Nat) :
    (spell (.pointer pointee mutability depth)).toList.count '*' = depth := by
  have hpointee : (scalarName pointee).toList.count '*' = 0 :=
    List.count_eq_zero.mpr (not_mem_scalarName pointee '*' (by decide))
  rw [toList_spell_pointer, List.count_append, hpointee, List.count_replicate_self, Nat.zero_add]

theorem typeShape_spell {type : NativeType} (h : IsReadable type) :
    typeShape (spell type) = TypeShape.ofType type := by
  cases type with
  | scalar scalar =>
    simp only [spell, typeShape, not_mem_scalarName scalar '*' (by decide), if_false, wordShape,
      carrierOf?_scalarName, TypeShape.ofType]
  | pointer pointee mutability depth =>
    have hstar : '*' ∉ (scalarName pointee).toList := not_mem_scalarName pointee '*' (by decide)
    have hcount := count_spell_pointer pointee mutability depth
    have hmem : '*' ∈ (spell (.pointer pointee mutability depth)).toList :=
      List.count_pos_iff.mp (hcount.symm ▸ h)
    have hword : ((scalarName pointee).toList ++ List.replicate depth '*').filter (· ≠ '*') =
        (scalarName pointee).toList := by
      have hself : (scalarName pointee).toList.filter (· ≠ '*') = (scalarName pointee).toList :=
        List.filter_eq_self.mpr fun c hc => decide_eq_true fun heq => hstar (heq ▸ hc)
      rw [List.filter_append, hself, List.filter_replicate_of_neg (by decide), List.append_nil]
    rw [typeShape, if_pos hmem, hcount, toList_spell_pointer, hword, String.ofList_toList,
      carrierOf?_scalarName, TypeShape.ofType]
  | enum group => exact typeShape_of_not_mem (not_mem_of_isIdentifier h.1 '*' (by decide)) h.2
  | verbatim token => exact typeShape_of_not_mem (h.1 '*' (by decide)) h.2

theorem not_mem_spell {type : NativeType} (h : IsReadable type) :
    ∀ c ∈ ['\n', ',', '(', ')'], c ∉ (spell type).toList := by
  have hplain : ∀ c ∈ ['\n', ',', '(', ')'], c ∈ typeBreaks ∧ c ∉ "*".toList :=
    forall_mem_of_all (by decide)
  intro c hc
  obtain ⟨hbreak, hstar⟩ := hplain c hc
  cases type with
  | scalar scalar => exact not_mem_scalarName scalar c (List.mem_cons_of_mem _ hbreak)
  | pointer pointee mutability depth =>
    rw [spell, String.toList_append, List.mem_append, not_or]
    exact ⟨not_mem_scalarName pointee c (List.mem_cons_of_mem _ hbreak), not_mem_join_replicate hstar depth⟩
  | enum group => exact not_mem_of_isIdentifier h.1 c hbreak
  | verbatim token => exact h.1 c hbreak

end StaticExtension

end RegistryBindings.Artifact
