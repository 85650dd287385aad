import RegistryBindings.Proofs.Text.Marks

/-!
# Brackets that match

A text is read from left to right with a stack of the brackets that are open. One that opens is put on the stack, and
one that closes has to be of the kind on its top, which it takes off. `openAfter?` is the stack at the end of the text,
if every bracket fits. A text is bracketed if it leads from the empty stack to the empty stack.

What was open before a bracketed text is open after it. So a text that is put together from parts is followed by what
each of its parts leaves open, and no part is looked into again.
-/

namespace RegistryBindings.Text

inductive Bracket where
  | round
  | square
  | curly
deriving DecidableEq, Repr

def openedBy? : Char → Option Bracket
  | '(' => some .round
  | '[' => some .square
  | '\x7b' => some .curly
  | _ => none

def closedBy? : Char → Option Bracket
  | ')' => some .round
  | ']' => some .square
  | '\x7d' => some .curly
  | _ => none

/-- The brackets that are open once the character is read, innermost first. Nothing but the innermost can be closed. -/
def bracketStep (opened : List Bracket) (c : Char) : Option (List Bracket) :=
  match openedBy? c, closedBy? c with
  | some bracket, _ => some (bracket :: opened)
  | none, some bracket => if opened.head? = some bracket then some opened.tail else none
  | none, none => some opened

/-- The brackets that are open at the end of the text, if each one that it closes was open and innermost. -/
def openAfter? (opened : List Bracket) (text : String) : Option (List Bracket) :=
  text.toList.foldlM bracketStep opened

/-- Every bracket of the text is closed by its own kind in the right order, and nothing else is closed. -/
def IsBracketed (text : String) : Prop :=
  openAfter? [] text = some []

instance (text : String) : Decidable (IsBracketed text) :=
  inferInstanceAs (Decidable (_ = _))

example : IsBracketed "f(a[0]) \x7b\x7d" ∧ ¬ IsBracketed "(]" ∧ ¬ IsBracketed ")(" ∧ ¬ IsBracketed "(" := by decide

/-! ### Texts put together -/

/-- Fixed text is read as the list of its characters. -/
theorem openAfter?_ofList (opened : List Bracket) (text : List Char) :
    openAfter? opened (String.ofList text) = text.foldlM bracketStep opened := by
  rw [openAfter?, String.toList_ofList]

@[simp]
theorem openAfter?_empty (opened : List Bracket) : openAfter? opened "" = some opened := by
  simp [openAfter?]

@[simp]
theorem openAfter?_append (opened : List Bracket) (first second : String) :
    openAfter? opened (first ++ second) =
      (openAfter? opened first).bind fun opened => openAfter? opened second := by
  rw [openAfter?, String.toList_append, List.foldlM_append]
  rfl

/-- Brackets further out are not looked at, and stay. -/
theorem bracketStep_outer {opened after : List Bracket} {c : Char} (h : bracketStep opened c = some after)
    (outer : List Bracket) : bracketStep (opened ++ outer) c = some (after ++ outer) := by
  unfold bracketStep at h ⊢
  split at h
  · cases h
    rfl
  · split at h
    · next hhead =>
      cases h
      cases opened with
      | nil => cases hhead
      | cons innermost opened => exact if_pos hhead
    · cases h
  · cases h
    rfl

theorem foldlM_bracketStep_outer {opened after : List Bracket} {text : List Char}
    (h : text.foldlM bracketStep opened = some after) (outer : List Bracket) :
    text.foldlM bracketStep (opened ++ outer) = some (after ++ outer) := by
  induction text generalizing opened with
  | nil =>
    cases h
    rfl
  | cons c text ih =>
    rw [List.foldlM_cons] at h ⊢
    obtain ⟨middle, hmiddle, hrest⟩ := Option.bind_eq_some_iff.mp h
    exact Option.bind_eq_some_iff.mpr ⟨middle ++ outer, bracketStep_outer hmiddle outer, ih hrest⟩

/-- A bracketed text leaves open what was open before it. -/
theorem IsBracketed.openAfter? {text : String} (h : IsBracketed text) (opened : List Bracket) :
    openAfter? opened text = some opened :=
  foldlM_bracketStep_outer h opened

theorem IsBracketed.append {first second : String} (hfirst : IsBracketed first) (hsecond : IsBracketed second) :
    IsBracketed (first ++ second) := by
  rw [IsBracketed, openAfter?_append, hfirst.openAfter?, Option.bind_some, hsecond.openAfter?]

/-! ### Texts without brackets -/

def brackets : List Char :=
  ['(', ')', '[', ']', '\x7b', '\x7d']

def IsBare (text : String) : Prop :=
  ∀ c ∈ brackets, c ∉ text.toList

instance (text : String) : Decidable (IsBare text) :=
  List.decidableBAll (· ∉ text.toList) brackets

theorem bracketStep_of_not_mem {c : Char} (h : c ∉ brackets) (opened : List Bracket) :
    bracketStep opened c = some opened := by
  have hopens : openedBy? c = none := by
    unfold openedBy?
    split
    case h_4 => rfl
    all_goals exact absurd (by decide) h
  have hcloses : closedBy? c = none := by
    unfold closedBy?
    split
    case h_4 => rfl
    all_goals exact absurd (by decide) h
  rw [bracketStep, hopens, hcloses]

theorem foldlM_bracketStep_of_not_mem {text : List Char} (h : ∀ c ∈ brackets, c ∉ text) (opened : List Bracket) :
    text.foldlM bracketStep opened = some opened := by
  induction text with
  | nil => rfl
  | cons c text ih =>
    have hc : c ∉ brackets := fun hmem => h c hmem List.mem_cons_self
    have hrest : ∀ d ∈ brackets, d ∉ text := fun d hd hmem => h d hd (List.mem_cons_of_mem c hmem)
    rw [List.foldlM_cons, bracketStep_of_not_mem hc]
    exact ih hrest

theorem IsBare.isBracketed {text : String} (h : IsBare text) : IsBracketed text :=
  foldlM_bracketStep_of_not_mem h []

theorem isBare_append {first second : String} : IsBare (first ++ second) ↔ IsBare first ∧ IsBare second := by
  simp only [IsBare, String.toList_append, List.mem_append, not_or, forall_and]

theorem IsIdentifier.isBare {name : String} (h : IsIdentifier name) : IsBare name := by
  have hother : ∀ c ∈ brackets, isIdentifierChar c = false := forall_mem_of_all (by decide)
  exact fun c hc => h.not_mem (hother c hc)

end RegistryBindings.Text
