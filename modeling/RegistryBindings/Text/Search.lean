/-!
# Finding a mark in a text

Texts are lists of characters. `strip?` says what follows a mark the text begins with, `after?` what
follows the first place where a mark stands. Everything that reads markup rests on these two, and on
the fact that what they leave is shorter.
-/

namespace RegistryBindings.Text

/-- What follows `mark` in a text that begins with it. -/
def strip? : List Char → List Char → Option (List Char)
  | [], text => some text
  | m :: mark, c :: text => if c = m then strip? mark text else none
  | _ :: _, [] => none

/-- What follows the first occurrence of `mark`. -/
def after? (mark : List Char) : List Char → Option (List Char)
  | [] => strip? mark []
  | c :: text =>
    match strip? mark (c :: text) with
    | some rest => some rest
    | none => after? mark text

theorem strip?_append (mark rest : List Char) : strip? mark (mark ++ rest) = some rest := by
  induction mark with
  | nil => rfl
  | cons m mark ih => simp [strip?, ih]

theorem eq_append_of_strip? {mark text rest : List Char} (h : strip? mark text = some rest) :
    text = mark ++ rest := by
  fun_induction strip? mark text with
  | case1 text => exact Option.some.inj h
  | case2 m mark text ih => rw [ih h, List.cons_append]
  | case3 => cases h
  | case4 => cases h

theorem strip?_eq_some_iff {mark text rest : List Char} :
    strip? mark text = some rest ↔ text = mark ++ rest :=
  ⟨eq_append_of_strip?, fun h => h ▸ strip?_append mark rest⟩

theorem length_of_strip? {mark text rest : List Char} (h : strip? mark text = some rest) :
    text.length = mark.length + rest.length := by
  rw [eq_append_of_strip? h, List.length_append]

theorem length_le_of_strip? {mark text rest : List Char} (h : strip? mark text = some rest) :
    rest.length ≤ text.length :=
  length_of_strip? h ▸ Nat.le_add_left _ _

theorem length_le_of_after? {mark text rest : List Char} (h : after? mark text = some rest) :
    mark.length + rest.length ≤ text.length := by
  fun_induction after? mark text with
  | case1 => exact Nat.le_of_eq (length_of_strip? h).symm
  | case2 c text found hfound =>
    cases h
    exact Nat.le_of_eq (length_of_strip? hfound).symm
  | case3 c text _ ih => exact Nat.le_trans (ih h) (Nat.le_succ _)

theorem length_lt_of_after? {mark text rest : List Char} (hmark : mark ≠ [])
    (h : after? mark text = some rest) : rest.length < text.length := by
  have := length_le_of_after? h
  have := List.length_pos_iff.mpr hmark
  omega

theorem length_dropWhile_le (keep : Char → Bool) (text : List Char) :
    (text.dropWhile keep).length ≤ text.length :=
  (List.dropWhile_sublist keep).length_le

theorem length_lt_of_dropWhile {keep : Char → Bool} {text rest : List Char} {c : Char}
    (h : text.dropWhile keep = c :: rest) : rest.length < text.length := by
  have := length_dropWhile_le keep text
  rw [h] at this
  exact this

end RegistryBindings.Text
