import Mathlib.Data.List.TakeWhile
import RegistryBindings.Text.Blank

/-!
# Reading a line by its marks

A line of source text is fixed marks with names and free text between them. What stands between is found
again by taking the marks away: a name ends where no more letters, digits or underscores follow, and free
text ends at a mark that does not occur in it. Each reader here is undone by writing the line.
-/

namespace RegistryBindings.Text

/-- What holds of each of a few items is decided by going through them. -/
theorem forall_mem_of_all {α : Type} {p : α → Prop} [DecidablePred p] {items : List α}
    (h : items.all (p ·) = true) : ∀ item ∈ items, p item := by
  intro item hitem
  exact of_decide_eq_true (List.all_eq_true.mp h item hitem)

def isIdentifierChar (c : Char) : Bool :=
  c.isAlphanum || c == '_'

/-- A word of letters, digits and underscores that does not begin with a digit. -/
def IsIdentifier (name : String) : Prop :=
  (∃ c ∈ name.toList.head?, c.isDigit = false) ∧ ∀ c ∈ name.toList, isIdentifierChar c = true

instance (name : String) : Decidable (IsIdentifier name) :=
  decidable_of_iff
    (name.toList.head?.any (!·.isDigit) = true ∧ name.toList.all isIdentifierChar = true)
    (by simp [IsIdentifier, Option.any_eq_true])

theorem IsIdentifier.ne_nil {name : String} (h : IsIdentifier name) : name.toList ≠ [] := by
  intro hnil
  simp [IsIdentifier, hnil] at h

/-- A character that no identifier has is not in one. -/
theorem IsIdentifier.not_mem {name : String} (h : IsIdentifier name) {c : Char}
    (hc : isIdentifierChar c = false) : c ∉ name.toList := by
  intro hmem
  rw [h.2 c hmem] at hc
  cases hc

/-! ### Marks -/

def dropMark? (mark line : String) : Option String :=
  (strip? mark.toList line.toList).map String.ofList

def dropEnd? (mark line : String) : Option String :=
  (strip? mark.toList.reverse line.toList.reverse).map fun rest => String.ofList rest.reverse

def enclosed? (opening closing line : String) : Option String :=
  (dropMark? opening line).bind (dropEnd? closing)

/-- The word after the mark that a line begins with, and what follows it. -/
def named? (mark line : String) : Option (String × String) :=
  (dropMark? mark line).map fun rest =>
    (String.ofList (rest.toList.takeWhile isIdentifierChar),
      String.ofList (rest.toList.dropWhile isIdentifierChar))

def wordLine? (opening closing line : String) : Option String := do
  let (word, rest) ← named? opening line
  if rest = closing then some word else none

def pairLine? (opening middle closing line : String) : Option (String × String) := do
  let (first, rest) ← named? opening line
  return (first, ← wordLine? middle closing rest)

theorem dropMark?_append (mark rest : String) : dropMark? mark (mark ++ rest) = some rest := by
  rw [dropMark?, String.toList_append, strip?_append, Option.map_some, String.ofList_toList]

theorem dropMark?_eq_some_iff {mark line rest : String} :
    dropMark? mark line = some rest ↔ line = mark ++ rest := by
  constructor
  · intro h
    obtain ⟨found, hfound, rfl⟩ := Option.map_eq_some_iff.mp h
    rw [← String.toList_inj, String.toList_append, String.toList_ofList, eq_append_of_strip? hfound]
  · rintro rfl
    exact dropMark?_append mark rest

theorem dropMark?_append_eq_none {mark line : String} (h : dropMark? mark line = none) (more : String) :
    dropMark? (mark ++ more) line = none := by
  rw [Option.eq_none_iff_forall_not_mem]
  intro rest hrest
  rw [dropMark?_eq_some_iff.mp hrest, String.append_assoc, dropMark?_append] at h
  cases h

theorem named?_eq_none {mark line : String} (h : dropMark? mark line = none) : named? mark line = none := by
  rw [named?, h, Option.map_none]

theorem dropEnd?_append (mark rest : String) : dropEnd? mark (rest ++ mark) = some rest := by
  rw [dropEnd?, String.toList_append, List.reverse_append, strip?_append, Option.map_some,
    List.reverse_reverse, String.ofList_toList]

theorem eq_append_of_dropEnd? {mark line rest : String} (h : dropEnd? mark line = some rest) :
    line = rest ++ mark := by
  obtain ⟨found, hfound, rfl⟩ := Option.map_eq_some_iff.mp h
  have hreverse := congrArg List.reverse (eq_append_of_strip? hfound)
  rw [List.reverse_reverse, List.reverse_append, List.reverse_reverse] at hreverse
  rw [← String.toList_inj, String.toList_append, String.toList_ofList, hreverse]

theorem enclosed?_of_dropMark? {opening closing line : String} (h : dropMark? opening line = none) :
    enclosed? opening closing line = none := by
  rw [enclosed?, h, Option.bind_none]

/-- Nothing is enclosed in a line that does not end with the closing mark. -/
theorem enclosed?_of_dropEnd? {opening closing line : String} (h : dropEnd? closing line = none) :
    enclosed? opening closing line = none := by
  rw [Option.eq_none_iff_forall_not_mem]
  intro text htext
  obtain ⟨rest, hrest, hend⟩ := Option.bind_eq_some_iff.mp htext
  have hline : line = opening ++ text ++ closing := by
    rw [dropMark?_eq_some_iff.mp hrest, eq_append_of_dropEnd? hend, String.append_assoc]
  rw [hline, dropEnd?_append] at h
  cases h

theorem enclosed?_append (opening text closing : String) :
    enclosed? opening closing (opening ++ (text ++ closing)) = some text := by
  rw [enclosed?, dropMark?_append, Option.bind_some, dropEnd?_append]

/-- A word that a character of another kind follows is read as a whole. -/
theorem takeWhile_word {word rest : List Char} (hword : ∀ c ∈ word, isIdentifierChar c = true)
    (hrest : ∀ c ∈ rest.head?, isIdentifierChar c = false) :
    (word ++ rest).takeWhile isIdentifierChar = word ∧
      (word ++ rest).dropWhile isIdentifierChar = rest := by
  rw [List.takeWhile_append_of_pos hword, List.dropWhile_append_of_pos hword]
  cases rest with
  | nil => simp
  | cons c rest => simp [hrest c rfl]

/-- The text is empty or begins with a character that no word has. -/
def EndsWord (rest : String) : Prop :=
  ∀ c ∈ rest.toList.head?, isIdentifierChar c = false

theorem named?_append (mark : String) {name rest : String}
    (hname : ∀ c ∈ name.toList, isIdentifierChar c = true) (hrest : EndsWord rest) :
    named? mark (mark ++ (name ++ rest)) = some (name, rest) := by
  obtain ⟨htake, hdrop⟩ := takeWhile_word hname hrest
  rw [named?, dropMark?_append, Option.map_some, String.toList_append, htake, hdrop,
    String.ofList_toList, String.ofList_toList]

section

variable {opening middle closing line : String} {word : String}

theorem wordLine?_eq_none (h : dropMark? opening line = none) : wordLine? opening closing line = none := by
  simp only [wordLine?, named?_eq_none h, Option.bind_eq_bind, Option.bind_none]

theorem wordLine?_append (opening : String) (hword : IsIdentifier word) (hclosing : EndsWord closing) :
    wordLine? opening closing (opening ++ (word ++ closing)) = some word := by
  simp only [wordLine?, named?_append opening hword.2 hclosing, Option.bind_eq_bind, Option.bind_some,
    if_true]

/-- A line that goes on in another way after the word. -/
theorem wordLine?_of_ne {rest : String} (hword : IsIdentifier word) (hrest : EndsWord rest)
    (hne : rest ≠ closing) : wordLine? opening closing (opening ++ (word ++ rest)) = none := by
  simp only [wordLine?, named?_append opening hword.2 hrest, Option.bind_eq_bind, Option.bind_some, if_neg hne]

theorem pairLine?_eq_none (h : dropMark? opening line = none) :
    pairLine? opening middle closing line = none := by
  simp only [pairLine?, named?_eq_none h, Option.bind_eq_bind, Option.bind_none]

theorem pairLine?_append {first second : String} (opening : String) (hfirst : IsIdentifier first)
    (hmiddle : EndsWord (middle ++ (second ++ closing))) (hsecond : IsIdentifier second)
    (hclosing : EndsWord closing) :
    pairLine? opening middle closing (opening ++ (first ++ (middle ++ (second ++ closing)))) =
      some (first, second) := by
  simp only [pairLine?, named?_append opening hfirst.2 hmiddle, wordLine?_append middle hsecond hclosing,
    Option.bind_eq_bind, Option.bind_some, Option.pure_def]

theorem pairLine?_of_dropMark? {rest : String} (hword : IsIdentifier word) (hrest : EndsWord rest)
    (h : dropMark? middle rest = none) : pairLine? opening middle closing (opening ++ (word ++ rest)) = none := by
  simp only [pairLine?, named?_append opening hword.2 hrest, wordLine?_eq_none h, Option.bind_eq_bind,
    Option.bind_some, Option.bind_none]

end

/-! ### Fixed text

A literal is `String.ofList` of its characters, and so the facts about fixed text are stated: they apply to
literals as they stand, and what is left to decide is about lists of characters. -/

theorem endsWord_ofList {c : Char} {rest : List Char} (h : isIdentifierChar c = false) :
    EndsWord (String.ofList (c :: rest)) := by
  intro d hd
  rw [String.toList_ofList, List.head?_cons, Option.mem_some_iff] at hd
  rwa [← hd]

theorem endsWord_append {c : Char} {first : List Char} (h : isIdentifierChar c = false) (rest : String) :
    EndsWord (String.ofList (c :: first) ++ rest) := by
  intro d hd
  rw [String.toList_append, String.toList_ofList, List.cons_append, List.head?_cons,
    Option.mem_some_iff] at hd
  rwa [← hd]

/-- Whether the two texts differ at some place, before either of them ends. -/
def differ : List Char → List Char → Bool
  | c :: first, d :: second => c ≠ d || differ first second
  | _, _ => false

theorem strip?_append_of_differ {mark before : List Char} (h : differ mark before = true)
    (rest : List Char) : strip? mark (before ++ rest) = none := by
  fun_induction differ mark before with
  | case1 c mark d before ih =>
    rw [Bool.or_eq_true, decide_eq_true_iff] at h
    rw [List.cons_append, strip?]
    split
    · next heq => exact ih (h.resolve_left fun hne => hne heq.symm)
    · rfl
  | case2 => cases h

theorem dropMark?_append_of_differ {mark before : List Char} (h : differ mark before = true)
    (rest : String) : dropMark? (String.ofList mark) (String.ofList before ++ rest) = none := by
  rw [dropMark?, String.toList_append, String.toList_ofList, String.toList_ofList,
    strip?_append_of_differ h, Option.map_none]

theorem dropMark?_ofList {mark line : List Char} (h : (strip? mark line).isNone = true) :
    dropMark? (String.ofList mark) (String.ofList line) = none := by
  rw [dropMark?, String.toList_ofList, String.toList_ofList, Option.isNone_iff_eq_none.mp h,
    Option.map_none]

theorem dropEnd?_append_of_differ {mark after : List Char} (h : differ mark.reverse after.reverse = true)
    (before : String) : dropEnd? (String.ofList mark) (before ++ String.ofList after) = none := by
  rw [dropEnd?, String.toList_append, String.toList_ofList, String.toList_ofList, List.reverse_append,
    strip?_append_of_differ h, Option.map_none]

theorem ne_of_dropMark?_eq_none {mark line : String} (h : dropMark? mark line = none) : line ≠ mark := by
  rintro rfl
  have hwhole := dropMark?_append line ""
  rw [String.append_empty, h] at hwhole
  cases hwhole

theorem append_ne_of_differ {line before : List Char} (h : differ line before = true) (rest : String) :
    String.ofList before ++ rest ≠ String.ofList line :=
  ne_of_dropMark?_eq_none (dropMark?_append_of_differ h rest)

/-- The line is one line, and begins with none of the marks. -/
structure Avoids (marks : List (List Char)) (line : String) : Prop where
  dropMark?_eq_none : ∀ mark ∈ marks, dropMark? (String.ofList mark) line = none
  not_mem : '\n' ∉ line.toList

theorem avoids_ofList {marks : List (List Char)} {line : List Char}
    (h : (marks.all (fun mark => (strip? mark line).isNone) && line.all (· ≠ '\n')) = true) :
    Avoids marks (String.ofList line) := by
  rw [Bool.and_eq_true, List.all_eq_true, List.all_eq_true] at h
  refine ⟨fun mark hmark => dropMark?_ofList (h.1 mark hmark), ?_⟩
  rw [String.toList_ofList]
  exact fun hmem => of_decide_eq_true (h.2 _ hmem) rfl

theorem avoids_append {marks : List (List Char)} {before : List Char}
    (h : (marks.all (differ · before) && before.all (· ≠ '\n')) = true) {rest : String}
    (hrest : '\n' ∉ rest.toList) : Avoids marks (String.ofList before ++ rest) := by
  rw [Bool.and_eq_true, List.all_eq_true, List.all_eq_true] at h
  refine ⟨fun mark hmark => dropMark?_append_of_differ (h.1 mark hmark) rest, ?_⟩
  rw [String.toList_append, String.toList_ofList, List.mem_append, not_or]
  exact ⟨fun hmem => of_decide_eq_true (h.2 _ hmem) rfl, hrest⟩

theorem Avoids.of_cons {mark : List Char} {marks : List (List Char)} {line : String}
    (h : Avoids (mark :: marks) line) : Avoids marks line :=
  ⟨fun other hother => h.dropMark?_eq_none other (List.mem_cons_of_mem mark hother), h.not_mem⟩

/-! ### Mentions -/

/-- The words after each occurrence of the mark. -/
def mentions (mark : List Char) : List Char → List String
  | [] => []
  | c :: text =>
    match strip? mark (c :: text) with
    | some rest => String.ofList (rest.takeWhile isIdentifierChar) :: mentions mark text
    | none => mentions mark text

/-- Whether the mark begins nowhere in the text, whatever follows it. -/
def lacks (mark : List Char) : List Char → Bool
  | [] => true
  | c :: text => differ mark (c :: text) && lacks mark text

/-- Whether the text ends with the mark, which begins nowhere before. -/
def leadsTo (mark text : List Char) : Bool :=
  (strip? mark.reverse text.reverse).any fun before => lacks mark before.reverse

theorem lacks_of_not_mem {m : Char} {text : List Char} (h : m ∉ text) (mark : List Char) :
    lacks (m :: mark) text = true := by
  induction text with
  | nil => rfl
  | cons c text ih =>
    rw [List.mem_cons, not_or] at h
    rw [lacks, differ, decide_eq_true h.1, ih h.2]
    rfl

theorem mentions_append_of_lacks {mark before : List Char} (h : lacks mark before = true)
    (rest : List Char) : mentions mark (before ++ rest) = mentions mark rest := by
  induction before with
  | nil => rfl
  | cons c before ih =>
    rw [lacks, Bool.and_eq_true] at h
    rw [List.cons_append, mentions, ← List.cons_append, strip?_append_of_differ h.1]
    exact ih h.2

/-- Fixed text that lacks the mark. -/
theorem mentions_skip {mark before : List Char} (h : lacks mark before = true) (rest : String) :
    mentions mark (String.ofList before ++ rest).toList = mentions mark rest.toList := by
  rw [String.toList_append, String.toList_ofList, mentions_append_of_lacks h]

theorem mentions_skip_word {m : Char} {mark : List Char} {word : String} (hm : isIdentifierChar m = false)
    (hword : ∀ c ∈ word.toList, isIdentifierChar c = true) (rest : String) :
    mentions (m :: mark) (word ++ rest).toList = mentions (m :: mark) rest.toList := by
  refine String.toList_append ▸ mentions_append_of_lacks (lacks_of_not_mem (fun hmem => ?_) mark) _
  rw [hword m hmem] at hm
  cases hm

theorem mentions_of_not_mem {m : Char} {text : List Char} (h : m ∉ text) (mark : List Char) :
    mentions (m :: mark) text = [] := by
  have happend := mentions_append_of_lacks (lacks_of_not_mem h mark) []
  rwa [List.append_nil] at happend

/-- Fixed text that leads to the mark, and the word after it. The mark begins with a character that
neither it nor any word has again. -/
theorem mentions_word {m : Char} {mark before : List Char} {word rest : String} (hm : m ∉ mark)
    (hother : isIdentifierChar m = false) (hbefore : leadsTo (m :: mark) before = true)
    (hword : ∀ c ∈ word.toList, isIdentifierChar c = true) (hrest : EndsWord rest) :
    mentions (m :: mark) (String.ofList before ++ (word ++ rest)).toList =
      word :: mentions (m :: mark) rest.toList := by
  obtain ⟨found, hfound, hlacks⟩ := (Option.any_eq_true _ _).mp hbefore
  have hsplit : before = found.reverse ++ m :: mark := by
    rw [← List.reverse_inj, List.reverse_append, List.reverse_reverse]
    exact eq_append_of_strip? hfound
  have hstrip : strip? (m :: mark) (m :: (mark ++ (word.toList ++ rest.toList))) =
      some (word.toList ++ rest.toList) :=
    strip?_append (m :: mark) (word.toList ++ rest.toList)
  have htext : (String.ofList before ++ (word ++ rest)).toList =
      found.reverse ++ m :: (mark ++ (word.toList ++ rest.toList)) := by
    simp [hsplit]
  rw [htext, mentions_append_of_lacks hlacks, mentions, hstrip]
  simp only [(takeWhile_word hword hrest).1, String.ofList_toList]
  rw [mentions_append_of_lacks (lacks_of_not_mem hm mark), ← String.toList_append,
    mentions_skip_word hother hword]

/-! ### Cutting at a separator -/

def cut? (separator : Char) (text : String) : Option (String × String) :=
  (strip? [separator] (text.toList.dropWhile (· ≠ separator))).map fun rest =>
    (String.ofList (text.toList.takeWhile (· ≠ separator)), String.ofList rest)

def cutLast? (separator : Char) (text : String) : Option (String × String) :=
  (cut? separator (String.ofList text.toList.reverse)).map fun (after, before) =>
    (String.ofList before.toList.reverse, String.ofList after.toList.reverse)

theorem cut?_append {separator : Char} {before : String} (h : separator ∉ before.toList)
    (after : String) :
    cut? separator (before ++ (String.singleton separator ++ after)) = some (before, after) := by
  have hbefore : ∀ c ∈ before.toList, decide (c ≠ separator) = true := by
    intro c hc
    rw [decide_eq_true_iff]
    rintro rfl
    exact h hc
  have htext : (before ++ (String.singleton separator ++ after)).toList =
      before.toList ++ separator :: after.toList := by
    simp
  rw [cut?, htext, List.takeWhile_append_of_pos hbefore, List.dropWhile_append_of_pos hbefore]
  simp [strip?]

theorem cutLast?_append {separator : Char} {after : String} (h : separator ∉ after.toList)
    (before : String) :
    cutLast? separator (before ++ (String.singleton separator ++ after)) = some (before, after) := by
  have htext : String.ofList (before ++ (String.singleton separator ++ after)).toList.reverse =
      String.ofList after.toList.reverse ++
        (String.singleton separator ++ String.ofList before.toList.reverse) := by
    rw [← String.toList_inj]
    simp
  have hafter : separator ∉ (String.ofList after.toList.reverse).toList := by simpa using h
  rw [cutLast?, htext, cut?_append hafter]
  simp

end RegistryBindings.Text
