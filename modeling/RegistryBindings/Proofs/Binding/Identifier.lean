import RegistryBindings.Binding.Identifier
import RegistryBindings.Proofs.Text.Marks

/-!
# Names in snake case

Snake case puts an underscore before each capital after the first and makes every ASCII capital small. So
its characters are underscores and the small forms of the name's characters, and a name that gets no
underscore is changed in its first letter at most.
-/

namespace RegistryBindings.Binding

open Text

/-- A character is its own small form unless it is a capital, which lies 32 places before a small letter. -/
theorem toLower_cases (c : Char) :
    c.toLower = c ∨
      (c.isUpper = true ∧ c.toLower.isLower = true ∧ c.toLower.toNat = c.toNat + 32) := by
  by_cases h : 65 ≤ c.toNat ∧ c.toNat ≤ 90
  · right
    have hletter : c.val ≥ 'A'.val ∧ c.val ≤ 'Z'.val := by
      simpa [UInt32.le_iff_toNat_le] using h
    have hplace : c.toLower.toNat = c.toNat + 32 := by
      delta Char.toLower
      rw [dif_pos hletter]
      change (c.toNat + 32) % 2 ^ 32 = c.toNat + 32
      omega
    have hlower : 97 ≤ c.toLower.toNat ∧ c.toLower.toNat ≤ 122 := by omega
    refine ⟨decide_eq_true hletter, ?_, hplace⟩
    delta Char.isLower
    simpa [UInt32.le_iff_toNat_le] using hlower
  · left
    delta Char.toLower
    rw [dif_neg]
    simpa [UInt32.le_iff_toNat_le] using h

theorem toLower_of_not_isUppercase {c : Char} (h : isUppercase c = false) : c.toLower = c := by
  rcases toLower_cases c with heq | ⟨hupper, -⟩
  · exact heq
  · rw [isUppercase_of_isUpper hupper] at h
    cases h

/-- A word that snake case puts no underscore into has no capitals, and stays as it is. -/
theorem flatMap_snake_eq_self {word : List Char}
    (h : '_' ∉ word.flatMap fun c => if isUppercase c then ['_', c.toLower] else [c.toLower]) :
    word.flatMap (fun c => if isUppercase c then ['_', c.toLower] else [c.toLower]) = word := by
  induction word with
  | nil => rfl
  | cons c word ih =>
    rw [List.flatMap_cons, List.mem_append, not_or] at h
    rw [List.flatMap_cons, ih h.2]
    cases hupper : isUppercase c with
    | true => simp [hupper] at h
    | false => simp [toLower_of_not_isUppercase hupper]

/-- Snake case is made of underscores and of the small forms of the characters. -/
theorem mem_toSnakeCase {d : Char} {name : String} (h : d ∈ (toSnakeCase name).toList) :
    d = '_' ∨ ∃ c ∈ name.toList, d = c.toLower := by
  rw [toSnakeCase] at h
  split at h
  · cases h
  · next first rest hname =>
    rw [String.toList_ofList, List.mem_cons, List.mem_flatMap] at h
    rw [hname]
    rcases h with rfl | ⟨c, hc, hd⟩
    · exact .inr ⟨first, List.mem_cons_self, rfl⟩
    · split at hd
      · rw [List.mem_cons, List.mem_singleton] at hd
        exact hd.imp_right fun heq => ⟨c, List.mem_cons_of_mem first hc, heq⟩
      · exact .inr ⟨c, List.mem_cons_of_mem first hc, List.mem_singleton.mp hd⟩

/-- A character that is neither a letter nor an underscore is in snake case only if it is in the name. -/
theorem not_mem_toSnakeCase {d : Char} {name : String} (hletter : d.isLower = false) (hmark : d ≠ '_')
    (h : d ∉ name.toList) : d ∉ (toSnakeCase name).toList := by
  intro hmem
  rcases mem_toSnakeCase hmem with rfl | ⟨c, hc, rfl⟩
  · exact hmark rfl
  · rcases toLower_cases c with heq | ⟨-, hlower, -⟩
    · exact h (by rwa [heq])
    · rw [hlower] at hletter
      cases hletter

theorem isIdentifierChar_toLower {c : Char} (h : isIdentifierChar c = true) :
    isIdentifierChar c.toLower = true := by
  rcases toLower_cases c with heq | ⟨-, hlower, -⟩
  · rwa [heq]
  · have halpha : c.toLower.isAlpha = true := Bool.or_eq_true_iff.mpr (.inr hlower)
    simp [isIdentifierChar, Char.isAlphanum, halpha]

theorem isIdentifierChar_toSnakeCase {name : String}
    (h : ∀ c ∈ name.toList, isIdentifierChar c = true) :
    ∀ c ∈ (toSnakeCase name).toList, isIdentifierChar c = true := by
  intro d hd
  rcases mem_toSnakeCase hd with rfl | ⟨c, hc, rfl⟩
  · rfl
  · exact isIdentifierChar_toLower (h c hc)

theorem isIdentifierChar_withoutApi {name : String}
    (h : ∀ c ∈ name.toList, isIdentifierChar c = true) :
    ∀ c ∈ (withoutApi name).toList, isIdentifierChar c = true := by
  intro c hc
  rw [withoutApi] at hc
  split at hc
  · exact h c hc
  · next first rest hrest =>
    rw [String.toList_ofList, ← hrest] at hc
    exact h c ((List.dropWhile_sublist _).subset hc)

theorem toSnakeCase_eq_enums_iff {name : String} :
    toSnakeCase name = "enums" ↔ name = "enums" ∨ name = "Enums" := by
  constructor
  · intro h
    have hlist : (toSnakeCase name).toList = ['e', 'n', 'u', 'm', 's'] := by rw [h]; rfl
    rw [toSnakeCase] at hlist
    split at hlist
    · cases hlist
    · next c rest hname =>
      rw [String.toList_ofList, List.cons.injEq] at hlist
      obtain ⟨hfirst, hrest⟩ := hlist
      rw [flatMap_snake_eq_self (by rw [hrest]; decide)] at hrest
      subst hrest
      rcases toLower_cases c with heq | ⟨-, -, hplace⟩
      · rw [← heq, hfirst] at hname
        exact .inl (String.toList_inj.mp hname)
      · have hcapital : c = 'E' := by
          rw [hfirst] at hplace
          exact Char.toNat_inj.mp (Nat.add_right_cancel hplace.symm)
        rw [hcapital] at hname
        exact .inr (String.toList_inj.mp hname)
  · rintro (rfl | rfl) <;> decide

end RegistryBindings.Binding
