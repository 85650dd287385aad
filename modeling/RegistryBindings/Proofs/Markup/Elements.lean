import RegistryBindings.Proofs.Markup.Writing

/-!
# The elements of content

Content as a reader sees it who asks what elements it has: its own children, each with its content if it
was opened by a start tag, and whether an element of some name is opened anywhere in it. Content whose
events have no fault has none itself.
-/

namespace RegistryBindings.Markup

/-! ### Faults -/

def Events.fault? : Events → Option Fault
  | ended => none
  | failed fault => some fault
  | cons _ rest => rest.fault?

theorem Events.fault?_append (first second : Events) :
    (first.append second).fault? = first.fault?.or second.fault? := by
  induction first with
  | ended => rfl
  | failed fault => rfl
  | cons event rest ih => exact ih

theorem Nested.fault?_events {events : Events} {content : Content} (h : Nested events content) :
    events.fault? = none := by
  induction h with
  | ended => rfl
  | text _ _ ih => exact ih
  | void _ _ ih => exact ih
  | aside _ ih => exact ih
  | element tag _ _ ihbody ihnext =>
    rw [Events.fault?, Events.fault?_append, ihbody, Option.none_or]
    exact ihnext

namespace Content

/-- Folding events into contents neither loses a fault nor changes which one is first. -/
theorem findSome?_fault?_split (events : Events) :
    ((split events).1 :: (split events).2).findSome? fault? = events.fault? := by
  induction events with
  | ended => rfl
  | failed fault => rfl
  | cons event rest ih =>
    rw [split, Events.fault?, ← ih]
    generalize split rest = parts
    obtain ⟨content, after⟩ := parts
    cases event with
    | text characters => rfl
    | void tag => rfl
    | aside => rfl
    | closing name => rfl
    | opening tag =>
      cases after with
      | nil => cases h : content.fault? <;> simp [fault?, h]
      | cons next outer =>
        simp only [List.findSome?_cons, fault?]
        cases content.fault? <;> rfl

theorem fault?_ofText {text : String} (h : (Events.ofText text).fault? = none) :
    (ofText text).fault? = none := by
  rw [← findSome?_fault?_split, List.findSome?_eq_none_iff] at h
  exact h _ List.mem_cons_self

theorem fault?_events {content : Content} (h : content.Plain) (rest : Events) :
    (content.events rest).fault? = rest.fault? := by
  have hevents : content.events rest = (content.events .ended).append rest := content.events_append .ended rest
  rw [hevents, Events.fault?_append, (nested_events h).fault?_events, Option.none_or]

end Content

/-! ### Children -/

/-- A child element, with its content if it was opened. -/
structure Child where
  tag : Tag
  body? : Option Content
deriving DecidableEq

namespace Content

def children : Content → List Child
  | done | failed _ => []
  | text _ next => next.children
  | void tag next => ⟨tag, none⟩ :: next.children
  | element tag body next => ⟨tag, some body⟩ :: next.children

def HasOpened (content : Content) (name : String) : Prop :=
  ∃ child ∈ content.children, child.tag.name = name ∧ child.body?.isSome

instance (content : Content) (name : String) : Decidable (content.HasOpened name) :=
  inferInstanceAs (Decidable (∃ child ∈ content.children, _))

theorem hasOpened_void {tag : Tag} {next : Content} {name : String} :
    (void tag next).HasOpened name ↔ next.HasOpened name := by
  simp [HasOpened, children]

theorem hasOpened_element {tag : Tag} {body next : Content} {name : String} :
    (element tag body next).HasOpened name ↔ tag.name = name ∨ next.HasOpened name := by
  simp [HasOpened, children]

def Opens (name : String) : Content → Prop
  | done | failed _ => False
  | text _ next | void _ next => next.Opens name
  | element tag body next => tag.name = name ∨ body.Opens name ∨ next.Opens name

instance decidableOpens (name : String) : (content : Content) → Decidable (content.Opens name)
  | done | failed _ => inferInstanceAs (Decidable False)
  | text _ next | void _ next => decidableOpens name next
  | element tag body next =>
    have := decidableOpens name body
    have := decidableOpens name next
    inferInstanceAs (Decidable (tag.name = name ∨ body.Opens name ∨ next.Opens name))

end Content

def Tag.Has (tag : Tag) (name : String) : Prop :=
  (tag.value? name).isSome

instance (tag : Tag) (name : String) : Decidable (tag.Has name) :=
  inferInstanceAs (Decidable (_ = true))

end RegistryBindings.Markup
