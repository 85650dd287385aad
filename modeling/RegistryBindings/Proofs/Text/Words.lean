import Mathlib.Data.List.DropRight
import Mathlib.Data.List.TakeWhile
import RegistryBindings.Text.Blank

/-!
# Words, trimming and lists

The words of a text are the pieces between its blanks, without the empty ones. So a text falls apart at a blank:
its words are those before the blank and those after it. In the same way a list falls apart at its separator.
What has no blank at either end is already trimmed.
-/

namespace RegistryBindings.Text

theorem words_eq (text : List Char) :
    words text =
      match text.dropWhile isBlank with
      | [] => []
      | c :: rest => (c :: rest.takeWhile (!isBlank ·)) :: words (rest.dropWhile (!isBlank ·)) := by
  rw [words]
  split
  · next h => rw [h]
  · next h => simp only [h]

theorem words_nil : words [] = [] :=
  words_eq []

theorem words_cons_of_isBlank {c : Char} (h : isBlank c = true) (text : List Char) :
    words (c :: text) = words text := by
  rw [words_eq, words_eq text, List.dropWhile_cons_of_pos h]

theorem words_cons_of_not_isBlank {c : Char} (h : isBlank c = false) (text : List Char) :
    words (c :: text) =
      (c :: text.takeWhile (!isBlank ·)) :: words (text.dropWhile (!isBlank ·)) := by
  rw [words_eq, List.dropWhile_cons_of_neg (by simp [h])]

/-- The words are the pieces between blanks, without the empty ones. -/
theorem words_eq_splitOnP (text : List Char) : words text = (text.splitOnP isBlank).filter (· ≠ []) := by
  -- After its first word a text goes on with a shorter one, so the induction is on the length.
  induction hlength : text.length using Nat.strongRecOn generalizing text with
  | ind length ih =>
    cases text with
    | nil =>
      rw [words_nil]
      rfl
    | cons c text =>
      rw [List.length_cons] at hlength
      by_cases hc : isBlank c = true
      · have hsplit : (c :: text).splitOnP isBlank = [] :: text.splitOnP isBlank :=
          List.splitOnP_append_cons [] text hc
        rw [words_cons_of_isBlank hc, hsplit, ih text.length (by omega) text rfl]
        rfl
      · rw [Bool.not_eq_true] at hc
        have hword : ∀ d ∈ c :: text.takeWhile (!isBlank ·), isBlank d = false :=
          List.forall_mem_cons.mpr ⟨hc, fun d hd => by simpa using List.mem_takeWhile_imp hd⟩
        rw [words_cons_of_not_isBlank hc]
        cases hrest : text.dropWhile (!isBlank ·) with
        | nil =>
          have htext : text = text.takeWhile (!isBlank ·) := by
            rw [← List.append_nil (text.takeWhile _), ← hrest, List.takeWhile_append_dropWhile]
          rw [words_nil, ← htext, List.splitOnP_eq_singleton (by rwa [← htext] at hword)]
          rfl
        | cons blank rest =>
          have hblank : isBlank blank = true := by
            have hhead := List.head?_dropWhile_not (!isBlank ·) text
            rw [hrest] at hhead
            simpa using hhead
          have htext : c :: text = (c :: text.takeWhile (!isBlank ·)) ++ blank :: rest := by
            rw [List.cons_append, ← hrest, List.takeWhile_append_dropWhile]
          have hshorter := length_dropWhile_le (!isBlank ·) text
          rw [hrest, List.length_cons] at hshorter
          rw [words_cons_of_isBlank hblank, htext, List.splitOnP_append_cons _ _ hblank,
            List.splitOnP_eq_singleton hword, ih rest.length (by omega) rest rfl]
          rfl

theorem words_append_blank {blank : Char} (h : isBlank blank = true) (text more : List Char) :
    words (text ++ blank :: more) = words text ++ words more := by
  rw [words_eq_splitOnP, List.splitOnP_append_cons text more h, List.filter_append, words_eq_splitOnP,
    words_eq_splitOnP]

def IsTrimmed (text : List Char) : Prop :=
  (∀ c ∈ text.head?, isBlank c = false) ∧ ∀ c ∈ text.getLast?, isBlank c = false

instance (text : List Char) : Decidable (IsTrimmed text) :=
  decidable_of_iff (text.head?.all (!isBlank ·) = true ∧ text.getLast?.all (!isBlank ·) = true)
    (by simp [IsTrimmed, Option.all_eq_true])

theorem dropWhile_eq_self_of_head? {keep : Char → Bool} {text : List Char}
    (h : ∀ c ∈ text.head?, keep c = false) : text.dropWhile keep = text := by
  cases text with
  | nil => rfl
  | cons c text => exact List.dropWhile_cons_of_neg (by simp [h c rfl])

theorem trim_of_isTrimmed {text : List Char} (h : IsTrimmed text) : trim text = text := by
  rw [trim, dropWhile_eq_self_of_head? h.1, dropWhile_eq_self_of_head?, List.reverse_reverse]
  rw [List.head?_reverse]
  exact h.2

theorem mem_of_mem_trim {c : Char} {text : List Char} (h : c ∈ trim text) : c ∈ text := by
  rw [trim, List.mem_reverse] at h
  exact (List.dropWhile_sublist _).mem (List.mem_reverse.mp ((List.dropWhile_sublist _).mem h))

theorem head?_dropWhile {drop : Char → Bool} {text : List Char} :
    ∀ c ∈ (text.dropWhile drop).head?, drop c = false := by
  intro c hc
  have hnot := List.head?_dropWhile_not drop text
  rw [Option.mem_def.mp hc] at hnot
  exact hnot

theorem isTrimmed_trim (text : List Char) : IsTrimmed (trim text) := by
  rw [trim]
  refine ⟨?_, ?_⟩
  · rw [List.head?_reverse]
    intro c hc
    -- What is left at the back is the end of what was left at the front, reversed.
    have hlast : c ∈ (text.dropWhile isBlank).reverse.getLast? := by
      obtain ⟨front, hfront⟩ := List.dropWhile_suffix (l := (text.dropWhile isBlank).reverse) isBlank
      rw [← hfront, List.getLast?_append, Option.mem_def.mp hc]
      rfl
    rw [List.getLast?_reverse] at hlast
    exact head?_dropWhile c hlast
  · rw [List.getLast?_reverse]
    exact head?_dropWhile

/-! ### Lists -/

theorem pieces_ne_nil (separator : Char) (text : List Char) : pieces separator text ≠ [] := by
  cases text with
  | nil => exact List.cons_ne_nil _ _
  | cons c text =>
    rw [pieces]
    split
    · exact List.cons_ne_nil _ _
    · split <;> exact List.cons_ne_nil _ _

theorem pieces_cons {separator c : Char} (h : c ≠ separator) {text piece : List Char}
    {rest : List (List Char)} (hpieces : pieces separator text = piece :: rest) :
    pieces separator (c :: text) = (c :: piece) :: rest := by
  rw [pieces, if_neg h, hpieces]

theorem pieces_eq_splitOn (separator : Char) (text : List Char) : pieces separator text = text.splitOn separator := by
  induction text with
  | nil => rfl
  | cons c text ih =>
    change _ = List.splitOnP (· == separator) (c :: text)
    rw [List.splitOnP_cons_eq_if_modifyHead]
    by_cases h : c = separator
    · rw [pieces, if_pos h, if_pos (beq_iff_eq.mpr h), ih]
      rfl
    · obtain ⟨piece, rest, hpieces⟩ := List.exists_cons_of_ne_nil (pieces_ne_nil separator text)
      rw [pieces_cons h hpieces, if_neg (by simpa using h), ← List.splitOn, ← ih, hpieces]
      rfl

theorem pieces_append_separator (separator : Char) (text more : List Char) :
    pieces separator (text ++ separator :: more) = pieces separator text ++ pieces separator more := by
  induction text with
  | nil =>
    change pieces separator (separator :: more) = [] :: pieces separator more
    rw [pieces, if_pos rfl]
  | cons c text ih =>
    by_cases h : c = separator
    · rw [List.cons_append, pieces, if_pos h, ih, pieces, if_pos h, List.cons_append]
    · obtain ⟨piece, rest, hpieces⟩ := List.exists_cons_of_ne_nil (pieces_ne_nil separator text)
      rw [hpieces, List.cons_append] at ih
      rw [List.cons_append, pieces_cons h ih, pieces_cons h hpieces, List.cons_append]

/-- The items of a list are what stands between its separators, without blanks at the ends and without the empty. -/
theorem listItems_eq_splitOn (separator : Char) (text : String) :
    listItems separator text =
      (((text.toList.splitOn separator).map fun piece => (piece.dropWhile isBlank).rdropWhile isBlank).filter
        (· ≠ [])).map String.ofList := by
  rw [listItems, pieces_eq_splitOn]
  rfl

theorem listItems_append_separator (separator : Char) (text more : List Char) :
    listItems separator (String.ofList (text ++ separator :: more)) =
      listItems separator (String.ofList text) ++ listItems separator (String.ofList more) := by
  simp only [listItems, String.toList_ofList, pieces_append_separator, List.map_append,
    List.filter_append]

/-- The items of a list that is written part by part are those of its parts. -/
theorem listItems_intercalate (separator : Char) (parts : List String) :
    listItems separator (String.ofList ([separator].intercalate (parts.map (·.toList)))) =
      parts.flatMap (listItems separator) := by
  induction parts with
  | nil => rfl
  | cons part parts ih =>
    rw [List.flatMap_cons, ← ih]
    cases parts with
    | nil =>
      have hempty : listItems separator (String.ofList []) = [] := rfl
      simp [hempty]
    | cons next parts =>
      rw [List.map_cons, List.map_cons, List.intercalate_cons_cons, List.append_assoc,
        List.singleton_append, listItems_append_separator, String.ofList_toList]

/-- A part that is an item of its own: it is not empty, has nothing to trim, and is not a list. -/
structure IsItem (separator : Char) (part : String) : Prop where
  ne_nil : part.toList ≠ []
  trimmed : IsTrimmed part.toList
  not_mem : separator ∉ part.toList

theorem pieces_of_not_mem {separator : Char} {text : List Char} (h : separator ∉ text) :
    pieces separator text = [text] := by
  induction text with
  | nil => rfl
  | cons c text ih =>
    have hc : c ≠ separator := by
      rintro rfl
      exact h List.mem_cons_self
    exact pieces_cons hc (ih fun hmem => h (List.mem_cons_of_mem c hmem))

theorem listItems_of_isItem {separator : Char} {part : String} (h : IsItem separator part) :
    listItems separator part = [part] := by
  rw [listItems, pieces_of_not_mem h.not_mem, List.map_singleton, trim_of_isTrimmed h.trimmed]
  simp [h.ne_nil, String.ofList_toList]

theorem not_mem_of_mem_pieces {separator : Char} {text piece : List Char}
    (h : piece ∈ pieces separator text) : separator ∉ piece := by
  induction text generalizing piece with
  | nil =>
    rw [pieces, List.mem_singleton] at h
    exact h ▸ List.not_mem_nil
  | cons c text ih =>
    by_cases hc : c = separator
    · rw [pieces, if_pos hc, List.mem_cons] at h
      rcases h with rfl | h
      · exact List.not_mem_nil
      · exact ih h
    · obtain ⟨first, rest, hpieces⟩ := List.exists_cons_of_ne_nil (pieces_ne_nil separator text)
      rw [pieces_cons hc hpieces, List.mem_cons] at h
      rw [hpieces] at ih
      rcases h with rfl | h
      · rw [List.mem_cons, not_or]
        exact ⟨Ne.symm hc, ih List.mem_cons_self⟩
      · exact ih (List.mem_cons_of_mem first h)

/-- The items of any list are items of their own. -/
theorem isItem_of_mem_listItems {separator : Char} {text part : String}
    (h : part ∈ listItems separator text) : IsItem separator part := by
  obtain ⟨trimmed, hmem, rfl⟩ := List.mem_map.mp h
  obtain ⟨hmem, hne⟩ := List.mem_filter.mp hmem
  obtain ⟨piece, hpiece, rfl⟩ := List.mem_map.mp hmem
  refine ⟨?_, ?_, ?_⟩
  · rw [String.toList_ofList]
    exact of_decide_eq_true hne
  · rw [String.toList_ofList]
    exact isTrimmed_trim piece
  · rw [String.toList_ofList]
    exact fun hseparator => not_mem_of_mem_pieces hpiece (mem_of_mem_trim hseparator)

end RegistryBindings.Text
