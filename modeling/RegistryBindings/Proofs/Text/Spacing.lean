import Mathlib.Data.List.Chain
import RegistryBindings.Proofs.Text.Words

/-!
# White space between words

The words of a text are what stands between its blanks, so where blanks stand matters and how many there are
does not. `Respaced` relates texts that differ in just that. Words that are joined by single spaces have one
space between each two and none at the ends, and they are read back from what they are joined to: such a text
is its own normal form.
-/

namespace RegistryBindings.Text

/-! ### Words -/

structure IsBlankFree (word : List Char) : Prop where
  ne_nil : word ≠ []
  not_blank : ∀ c ∈ word, isBlank c = false

theorem isBlankFree_of_mem_words {text word : List Char} (h : word ∈ words text) : IsBlankFree word := by
  induction hlength : text.length using Nat.strongRecOn generalizing text with
  | ind length ih =>
    rw [words_eq] at h
    split at h
    · cases h
    · next c rest hdrop =>
      have hc : isBlank c = false := head?_dropWhile c (by rw [hdrop]; rfl)
      rcases List.mem_cons.mp h with rfl | h
      · exact ⟨List.cons_ne_nil _ _,
          List.forall_mem_cons.mpr ⟨hc, fun d hd => by simpa using List.mem_takeWhile_imp hd⟩⟩
      · have hshorter := length_lt_of_dropWhile hdrop
        have hrest := length_dropWhile_le (!isBlank ·) rest
        exact ih _ (by omega) h rfl

theorem words_of_isBlankFree {word : List Char} (h : IsBlankFree word) : words word = [word] := by
  rw [words_eq_splitOnP, List.splitOnP_eq_singleton h.not_blank]
  simp [h.ne_nil]

/-! ### Words with one space between each two -/

theorem words_intercalate {parts : List (List Char)} (h : ∀ part ∈ parts, IsBlankFree part) :
    words ([' '].intercalate parts) = parts := by
  induction parts with
  | nil => exact words_nil
  | cons part parts ih =>
    obtain ⟨hpart, hparts⟩ := List.forall_mem_cons.mp h
    cases parts with
    | nil => simpa using words_of_isBlankFree hpart
    | cons next parts =>
      rw [List.intercalate_cons_cons, List.append_assoc, List.singleton_append,
        words_append_blank (by decide), words_of_isBlankFree hpart, ih hparts]
      rfl

/-- No blank stands at either end or next to another one, and every blank is a space. -/
structure IsSpacedOnce (text : List Char) : Prop where
  trimmed : IsTrimmed text
  not_doubled : text.IsChain fun first second => isBlank first = true → isBlank second = false
  eq_space : ∀ c ∈ text, isBlank c = true → c = ' '

theorem IsSpacedOnce.newline_not_mem {text : List Char} (h : IsSpacedOnce text) : '\n' ∉ text :=
  fun hmem => absurd (h.eq_space '\n' hmem (by decide)) (by decide)

theorem isSpacedOnce_of_isBlankFree {word : List Char} (h : IsBlankFree word) : IsSpacedOnce word where
  trimmed := ⟨fun c hc => h.not_blank c (List.mem_of_mem_head? hc),
    fun c hc => h.not_blank c (List.mem_of_mem_getLast? hc)⟩
  not_doubled := by
    refine List.Pairwise.isChain ?_
    exact List.pairwise_of_forall_mem_list fun first _ second hsecond _ => h.not_blank second hsecond
  eq_space c hc hblank := by
    rw [h.not_blank c hc] at hblank
    cases hblank

/-- A word is put in front of words that are joined already. -/
theorem IsSpacedOnce.cons_word {word text : List Char} (hword : IsBlankFree word) (h : IsSpacedOnce text)
    (hne : text ≠ []) : IsSpacedOnce (word ++ ' ' :: text) := by
  have hspaced := isSpacedOnce_of_isBlankFree hword
  refine ⟨⟨?_, ?_⟩, ?_, ?_⟩
  · rw [List.head?_append_of_ne_nil _ hword.ne_nil]
    exact hspaced.trimmed.1
  · rw [List.getLast?_append_of_ne_nil _ (List.cons_ne_nil _ _), List.getLast?_cons_of_ne_nil hne]
    exact h.trimmed.2
  · refine List.isChain_append.mpr ⟨hspaced.not_doubled, ?_, ?_⟩
    · exact List.isChain_cons.mpr ⟨fun c hc _ => h.trimmed.1 c hc, h.not_doubled⟩
    · intro last hlast first _ hblank
      rw [hspaced.trimmed.2 last hlast] at hblank
      cases hblank
  · intro c hc hblank
    rcases List.mem_append.mp hc with hc | hc
    · exact hspaced.eq_space c hc hblank
    · rcases List.mem_cons.mp hc with rfl | hc
      · rfl
      · exact h.eq_space c hc hblank

theorem isSpacedOnce_intercalate {parts : List (List Char)} (h : ∀ part ∈ parts, IsBlankFree part) :
    IsSpacedOnce ([' '].intercalate parts) := by
  induction parts with
  | nil => exact ⟨by decide, .nil, fun c hc => absurd hc List.not_mem_nil⟩
  | cons part parts ih =>
    obtain ⟨hpart, hparts⟩ := List.forall_mem_cons.mp h
    cases parts with
    | nil => simpa using isSpacedOnce_of_isBlankFree hpart
    | cons next parts =>
      have hne : [' '].intercalate (next :: parts) ≠ [] := by
        intro hnil
        have hwords := words_intercalate hparts
        rw [hnil, words_nil] at hwords
        cases hwords
      rw [List.intercalate_cons_cons, List.append_assoc, List.singleton_append]
      exact (ih hparts).cons_word hpart hne

theorem isSpacedOnce_collapse (text : List Char) : IsSpacedOnce (collapse text) :=
  isSpacedOnce_intercalate fun _ => isBlankFree_of_mem_words

theorem collapse_collapse (text : List Char) : collapse (collapse text) = collapse text := by
  rw [collapse, collapse, words_intercalate fun _ => isBlankFree_of_mem_words]

/-! ### White space of another length -/

/-- The texts are the same but for white space, and have white space at the same places. -/
inductive Respaced : List Char → List Char → Prop
  | nil : Respaced [] []
  | cons (c : Char) {text other : List Char} (h : Respaced text other) : Respaced (c :: text) (c :: other)
  | blanks {gap gap' text other : List Char} (hgap : gap ≠ []) (hblank : ∀ c ∈ gap, isBlank c = true)
    (hgap' : gap' ≠ []) (hblank' : ∀ c ∈ gap', isBlank c = true) (h : Respaced text other) :
    Respaced (gap ++ text) (gap' ++ other)

theorem Respaced.refl (text : List Char) : Respaced text text := by
  induction text with
  | nil => exact .nil
  | cons c text ih => exact .cons c ih

theorem Respaced.append {first first' second second' : List Char} (h : Respaced first first')
    (hsecond : Respaced second second') : Respaced (first ++ second) (first' ++ second') := by
  induction h with
  | nil => exact hsecond
  | cons c _ ih => exact .cons c ih
  | blanks hgap hblank hgap' hblank' _ ih =>
    rw [List.append_assoc, List.append_assoc]
    exact .blanks hgap hblank hgap' hblank' ih

theorem words_append_gap {gap : List Char} (hgap : gap ≠ []) (hblank : ∀ c ∈ gap, isBlank c = true)
    (text more : List Char) : words (text ++ (gap ++ more)) = words text ++ words more := by
  obtain ⟨blank, gap, rfl⟩ := List.exists_cons_of_ne_nil hgap
  obtain ⟨hfirst, hrest⟩ := List.forall_mem_cons.mp hblank
  have hgap : words (gap ++ more) = words more := by
    clear hgap hblank
    induction gap with
    | nil => rfl
    | cons c gap ih =>
      obtain ⟨hc, hrest⟩ := List.forall_mem_cons.mp hrest
      rw [List.cons_append, words_cons_of_isBlank hc, ih hrest]
  rw [List.cons_append, words_append_blank hfirst, hgap]

theorem Respaced.words_append_eq {text other : List Char} (h : Respaced text other) (before : List Char) :
    words (before ++ text) = words (before ++ other) := by
  -- What stands in front grows character by character until a gap closes its last word.
  induction h generalizing before with
  | nil => rfl
  | cons c _ ih =>
    have hcons := ih (before ++ [c])
    rwa [List.append_assoc, List.append_assoc] at hcons
  | blanks hgap hblank hgap' hblank' _ ih =>
    have hwords := ih []
    rw [List.nil_append, List.nil_append] at hwords
    rw [words_append_gap hgap hblank, words_append_gap hgap' hblank', hwords]

theorem Respaced.collapse_eq {text other : List Char} (h : Respaced text other) :
    collapse text = collapse other :=
  congrArg [' '].intercalate (h.words_append_eq [])

end RegistryBindings.Text
