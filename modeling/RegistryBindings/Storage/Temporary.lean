/-!
# Temporary names

A file that is not finished has a name of its own. Temporary names differ in length alone, and the first
one that is not taken is chosen, so that a name is found whatever is taken.
-/

namespace RegistryBindings.Storage

def temporaryName (n : Nat) : String :=
  ".tmp" ++ String.ofList (List.replicate n '0')

/-- The first temporary name, from the `n`th on, that is not taken. -/
def freeName (taken : List String) (n : Nat) : String :=
  if temporaryName n ∈ taken then freeName (taken.erase (temporaryName n)) (n + 1) else temporaryName n
termination_by taken.length
decreasing_by
  rename_i h
  have := List.length_pos_of_mem h
  rw [List.length_erase_of_mem h]
  omega

theorem length_temporaryName (n : Nat) : (temporaryName n).length = 4 + n := by
  have hstart : ".tmp".length = 4 := rfl
  simp [temporaryName, hstart]

theorem exists_freeName_eq (taken : List String) (n : Nat) :
    ∃ m, n ≤ m ∧ freeName taken n = temporaryName m := by
  fun_induction freeName taken n with
  | case1 taken n _ ih =>
    obtain ⟨m, hm, h⟩ := ih
    exact ⟨m, Nat.le_of_succ_le hm, h⟩
  | case2 taken n => exact ⟨n, Nat.le_refl n, rfl⟩

theorem freeName_not_mem (taken : List String) (n : Nat) : freeName taken n ∉ taken := by
  fun_induction freeName taken n with
  | case1 taken n _ ih =>
    obtain ⟨m, hm, h⟩ := exists_freeName_eq (taken.erase (temporaryName n)) (n + 1)
    have hne : freeName (taken.erase (temporaryName n)) (n + 1) ≠ temporaryName n := by
      intro heq
      have := congrArg String.length (h.symm.trans heq)
      rw [length_temporaryName, length_temporaryName] at this
      omega
    exact fun hmem => ih ((List.mem_erase_of_ne hne).mpr hmem)
  | case2 taken n h => exact h

end RegistryBindings.Storage
