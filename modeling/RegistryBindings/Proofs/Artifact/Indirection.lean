import RegistryBindings.Artifact.Target
import RegistryBindings.Proofs.Artifact.TypeShape
import RegistryBindings.Proofs.Binding.TypeTable

/-!
# Pointers stay pointers, and values stay values

A token shows by its asterisks how many pointers a type is away from a value. What a token means keeps that: with an
asterisk it is a pointer, as deep as the token has asterisks if the table knows it and opaque otherwise. Without one
it is a value, except for the handles and callbacks that are listed. A spelling in either language has as many
asterisks as the meaning has levels, although one language writes them in front of the pointee and the other one
behind it. In a version a type reference means what its token means, unless it refers to the enum type of a group
that the version has.
-/

namespace RegistryBindings

/-- The references of a command to types, its own first. -/
def Registry.Command.typeRefs (command : Registry.Command) : List Registry.TypeRef :=
  command.returnType :: command.parameters.map (·.type)

namespace Binding

/-- Handles and callbacks, which are pointers although their tokens have no asterisk. -/
def handles : List String :=
  ["GLsync", "GLDEBUGPROC", "GLDEBUGPROCARB", "GLDEBUGPROCKHR", "GLDEBUGPROCAMD", "GLeglImageOES",
    "GLeglClientBufferEXT", "GLvdpauSurfaceNV", "GLVULKANPROCNV"]

def NativeType.depth : NativeType → Nat
  | .pointer _ _ depth => depth
  | .scalar _ | .enum _ | .verbatim _ => 0

/-- A token of a row shows whether the row means a pointer, and how deep it is. -/
def ShowsDepth (token : String) : NativeType → Prop
  | .scalar _ => '*' ∉ token.toList
  | .pointer pointee mutability depth =>
    ('*' ∉ token.toList ∧ token ∈ handles ∧ NativeType.pointer pointee mutability depth = .opaquePointer) ∨
      (0 < depth ∧ token.toList.count '*' = depth)
  | .enum _ | .verbatim _ => False

instance (token : String) : (type : NativeType) → Decidable (ShowsDepth token type)
  | .scalar _ => inferInstanceAs (Decidable (_ ∉ _))
  | .pointer .. => inferInstanceAs (Decidable (_ ∨ _))
  | .enum _ | .verbatim _ => .isFalse id

theorem showsDepth_rows : ∀ row ∈ TypeTable.rows, ∀ token ∈ row.1, ShowsDepth token row.2 := by
  decide +kernel

end Binding

namespace Artifact

open Binding

/-! ### Asterisks in a spelling -/

namespace Target

theorem count_spell_pointer (target : Target) (pointee : Scalar) (mutability : Mutability) {depth : Nat}
    (h : 0 < depth) : (target.spell (.pointer pointee mutability depth)).toList.count '*' = depth := by
  cases target with
  | rust => exact LoaderStruct.count_spell_pointer pointee mutability h
  | beef => exact StaticExtension.count_spell_pointer pointee mutability depth

theorem count_spell_scalar (target : Target) (scalar : Scalar) :
    (target.spell (.scalar scalar)).toList.count '*' = 0 := by
  rw [List.count_eq_zero]
  cases target with
  | rust => exact LoaderStruct.not_mem_scalarName scalar '*' (by decide)
  | beef => exact StaticExtension.not_mem_scalarName scalar '*' (by decide)

theorem spell_verbatim (target : Target) (token : String) : target.spell (.verbatim token) = token := by
  cases target <;> rfl

end Target

/-! ### What a token means -/

/-- Pointers and values are kept apart from the token to the spelling in either language. -/
structure KeepsIndirection (token : String) : Prop where
  pointer : '*' ∈ token.toList → ∃ pointee mutability depth, 0 < depth ∧
    NativeType.ofToken token = .pointer pointee mutability depth
  unknown : '*' ∈ token.toList → TypeTable.lookup? token = none → NativeType.ofToken token = .opaquePointer
  known : '*' ∈ token.toList → TypeTable.lookup? token ≠ none →
    (NativeType.ofToken token).depth = token.toList.count '*'
  value : '*' ∉ token.toList → (∃ scalar, NativeType.ofToken token = .scalar scalar) ∨
    (token ∈ handles ∧ NativeType.ofToken token = .opaquePointer) ∨ NativeType.ofToken token = .verbatim token
  spelled : ∀ target : Target,
    (target.spell (NativeType.ofToken token)).toList.count '*' = (NativeType.ofToken token).depth

theorem keepsIndirection_of_lookup? {token : String} {type : NativeType} (h : TypeTable.lookup? token = some type) :
    KeepsIndirection token := by
  have hshows : ShowsDepth token type := TypeTable.of_lookup? showsDepth_rows h
  have hknown : TypeTable.lookup? token ≠ none := h ▸ Option.some_ne_none type
  have hmeans := NativeType.ofToken_of_lookup? h
  cases type with
  | scalar scalar =>
    exact {
      pointer := fun hmem => absurd hmem hshows
      unknown := fun hmem => absurd hmem hshows
      known := fun hmem => absurd hmem hshows
      value := fun _ => .inl ⟨scalar, hmeans⟩
      spelled := fun target => hmeans ▸ target.count_spell_scalar scalar }
  | pointer pointee mutability depth =>
    rcases hshows with ⟨hstar, hhandle, hpassed⟩ | ⟨hdepth, hcount⟩
    · rw [hpassed] at hmeans
      exact {
        pointer := fun hmem => absurd hmem hstar
        unknown := fun hmem => absurd hmem hstar
        known := fun hmem => absurd hmem hstar
        value := fun _ => .inr (.inl ⟨hhandle, hmeans⟩)
        spelled := fun target => hmeans ▸ target.count_spell_pointer .void .constant Nat.one_pos }
    · have hstar : '*' ∈ token.toList := List.count_pos_iff.mp (hcount ▸ hdepth)
      exact {
        pointer := fun _ => ⟨pointee, mutability, depth, hdepth, hmeans⟩
        unknown := fun _ hnone => absurd hnone hknown
        known := fun _ _ => hmeans ▸ hcount.symm
        value := fun hnot => absurd hstar hnot
        spelled := fun target => hmeans ▸ target.count_spell_pointer pointee mutability hdepth }
  | enum group => exact hshows.elim
  | verbatim other => exact hshows.elim

theorem keepsIndirection (token : String) : KeepsIndirection token := by
  cases hlookup : TypeTable.lookup? token with
  | some type => exact keepsIndirection_of_lookup? hlookup
  | none =>
    have hmeans := NativeType.ofToken_of_lookup?_eq_none hlookup
    by_cases hstar : '*' ∈ token.toList
    · rw [if_pos hstar] at hmeans
      exact {
        pointer := fun _ => ⟨.void, .constant, 1, Nat.one_pos, hmeans⟩
        unknown := fun _ _ => hmeans
        known := fun _ hknown => absurd hlookup hknown
        value := fun hnot => absurd hstar hnot
        spelled := fun target => hmeans ▸ target.count_spell_pointer .void .constant Nat.one_pos }
    · rw [if_neg hstar] at hmeans
      exact {
        pointer := fun hmem => absurd hmem hstar
        unknown := fun hmem => absurd hmem hstar
        known := fun hmem => absurd hmem hstar
        value := fun _ => .inr (.inr hmeans)
        spelled := fun target => by
          rw [hmeans, target.spell_verbatim, NativeType.depth, List.count_eq_zero]
          exact hstar }

/-! ### What a type reference means -/

def RefersToGroup (version : Registry.Version) (type : Registry.TypeRef) (group : String) : Prop :=
  type.spelling = "GLenum" ∧ type.group? = some group ∧ version.hasGroup group = true

theorem ofTypeRef_of_refersToGroup {version : Registry.Version} {type : Registry.TypeRef} {group : String}
    (h : RefersToGroup version type group) : NativeType.ofTypeRef version type = .enum group := by
  obtain ⟨hspelling, hgroup, hthere⟩ := h
  have henum : type.isEnum = true := beq_iff_eq.mpr hspelling
  rw [NativeType.ofTypeRef, if_pos henum, hgroup]
  exact if_pos hthere

theorem ofTypeRef_of_not_refersToGroup {version : Registry.Version} {type : Registry.TypeRef}
    (h : ∀ group, ¬ RefersToGroup version type group) :
    NativeType.ofTypeRef version type = NativeType.ofToken type.spelling := by
  rw [NativeType.ofTypeRef]
  split
  · next henum =>
    have hspelling : type.spelling = "GLenum" := beq_iff_eq.mp henum
    rw [hspelling, NativeType.ofToken_enumSpelling]
    split
    · next group hgroup => exact if_neg fun hthere => h group ⟨hspelling, hgroup, hthere⟩
    · rfl
  · rfl

/-- A type is the enum type of a group only by a reference to that group. -/
theorem refersToGroup_of_ofTypeRef {version : Registry.Version} {type : Registry.TypeRef} {group : String}
    (h : NativeType.ofTypeRef version type = .enum group) : RefersToGroup version type group := by
  by_cases hother : ∃ other, RefersToGroup version type other
  · obtain ⟨other, hrefers⟩ := hother
    rw [ofTypeRef_of_refersToGroup hrefers] at h
    cases h
    exact hrefers
  · rw [ofTypeRef_of_not_refersToGroup (not_exists.mp hother)] at h
    exact absurd h (NativeType.ofToken_ne_enum _ _)

/-- No token is turned from a pointer into a value or the other way, and a type reference means what its token means
unless it refers to a group of the version. -/
theorem keepsIndirection_ofTypeRef :
    (∀ token, KeepsIndirection token) ∧ ∀ (version : Registry.Version) (type : Registry.TypeRef),
      (∀ group, RefersToGroup version type group → NativeType.ofTypeRef version type = .enum group) ∧
        ((∀ group, ¬ RefersToGroup version type group) →
          NativeType.ofTypeRef version type = NativeType.ofToken type.spelling) :=
  ⟨keepsIndirection, fun _ _ => ⟨fun _ => ofTypeRef_of_refersToGroup, ofTypeRef_of_not_refersToGroup⟩⟩

end Artifact

end RegistryBindings
