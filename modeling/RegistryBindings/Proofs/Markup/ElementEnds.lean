import RegistryBindings.Proofs.Markup.Elements

/-!
# Where an element ends

A reader that has just seen a start tag has the content of an element before it, and behind that whatever follows the
element. `Spans` says where the one stops and the other begins. It goes through the events one by one, as a reader
does, and folds them into the same content as `Content.split`.

Among checked events the first end tag that was not opened here is the element's own. What stands before it closes what
it opens, and if there is none, the element is never closed and its content runs to the end.
-/

namespace RegistryBindings.Markup

def Events.length : Events → Nat
  | ended | failed _ => 0
  | cons _ rest => rest.length + 1

/-! ### The content of the innermost element -/

/-- The events begin with the content, and have the others after the end tag that stands behind it, if there is one. -/
inductive Spans : Events → Content → Option Events → Prop
  | ended : Spans .ended .done none
  | failed (fault : Fault) : Spans (.failed fault) (.failed fault) none
  | closing (name : String) (rest : Events) : Spans (.cons (.closing name) rest) .done (some rest)
  | text (characters : List Char) {events : Events} {next : Content} {rest? : Option Events}
    (hnext : Spans events next rest?) : Spans (.cons (.text characters) events) (.text characters next) rest?
  | void (tag : Tag) {events : Events} {next : Content} {rest? : Option Events} (hnext : Spans events next rest?) :
    Spans (.cons (.void tag) events) (.void tag next) rest?
  | aside {events : Events} {next : Content} {rest? : Option Events} (hnext : Spans events next rest?) :
    Spans (.cons .aside events) next rest?
  | element (tag : Tag) {events after : Events} {body next : Content} {rest? : Option Events}
    (hbody : Spans events body (some after)) (hnext : Spans after next rest?) :
    Spans (.cons (.opening tag) events) (.element tag body next) rest?
  /-- The element inside is not closed, and so the one around it is not either. -/
  | unclosed (tag : Tag) {events : Events} {body : Content} (hbody : Spans events body none) :
    Spans (.cons (.opening tag) events) (.element tag body .done) none

namespace Spans

variable {events rest : Events} {content other : Content} {rest? other? : Option Events}

theorem length_lt (h : Spans events content (some rest)) : rest.length < events.length := by
  generalize hrest : some rest = rest? at h
  induction h generalizing rest with
  | ended | failed | unclosed => cases hrest
  | closing name after =>
    cases hrest
    exact Nat.lt_succ_self _
  | text _ _ ih | void _ _ ih | aside _ ih => exact Nat.lt_succ_of_lt (ih hrest)
  | element tag _ _ ihbody ihnext => exact Nat.lt_succ_of_lt ((ihnext hrest).trans (ihbody rfl))

theorem unique (h : Spans events content rest?) (hother : Spans events other other?) :
    other = content ∧ other? = rest? := by
  induction h generalizing other other? with
  | ended | failed | closing =>
    cases hother
    exact ⟨rfl, rfl⟩
  | text characters _ ih =>
    cases hother with
    | text _ hnext =>
      obtain ⟨rfl, rfl⟩ := ih hnext
      exact ⟨rfl, rfl⟩
  | void tag _ ih =>
    cases hother with
    | void _ hnext =>
      obtain ⟨rfl, rfl⟩ := ih hnext
      exact ⟨rfl, rfl⟩
  | aside _ ih =>
    cases hother with
    | aside hnext => exact ih hnext
  | element tag _ _ ihbody ihnext =>
    cases hother with
    | element _ hbody hnext =>
      obtain ⟨rfl, hafter⟩ := ihbody hbody
      cases hafter
      obtain ⟨rfl, rfl⟩ := ihnext hnext
      exact ⟨rfl, rfl⟩
    | unclosed _ hbody => cases (ihbody hbody).2
  | unclosed tag _ ih =>
    cases hother with
    | element _ hbody hnext => cases (ih hbody).2
    | unclosed _ hbody =>
      obtain ⟨rfl, -⟩ := ih hbody
      exact ⟨rfl, rfl⟩

/-- The events fold into the content, and into the contents of those after its end tag. -/
theorem contents_eq (h : Spans events content rest?) :
    events.contents = content :: (rest?.map Events.contents).getD [] := by
  induction h with
  | ended => rfl
  | failed fault => rfl
  | closing name rest => exact Events.contents_closing name rest
  | text characters _ ih => rw [Events.contents_text, ih, List.modifyHead_cons]
  | void tag _ ih => rw [Events.contents_void, ih, List.modifyHead_cons]
  | aside _ ih => rw [Events.contents_aside, ih]
  | element tag _ _ ihbody ihnext =>
    rw [Events.contents_opening, ihbody, Option.map_some, Option.getD_some, ihnext]
    rfl
  | unclosed tag _ ih =>
    rw [Events.contents_opening, ih]
    rfl

theorem content_eq (h : Spans events content rest?) : (Content.split events).1 = content :=
  (List.cons.inj h.contents_eq).1

theorem exists_spans (events : Events) : ∃ content rest?, Spans events content rest? := by
  induction hlength : events.length using Nat.strongRecOn generalizing events with
  | _ length ih =>
    subst hlength
    cases events with
    | ended => exact ⟨_, _, .ended⟩
    | failed fault => exact ⟨_, _, .failed fault⟩
    | cons event events =>
      obtain ⟨content, rest?, h⟩ := ih _ (Nat.lt_succ_self _) events rfl
      cases event with
      | text characters => exact ⟨_, _, .text characters h⟩
      | void tag => exact ⟨_, _, .void tag h⟩
      | aside => exact ⟨_, _, .aside h⟩
      | closing name => exact ⟨_, _, .closing name events⟩
      | opening tag =>
        cases rest? with
        | none => exact ⟨_, _, .unclosed tag h⟩
        | some after =>
          obtain ⟨next, rest?, hnext⟩ := ih _ (Nat.lt_succ_of_lt h.length_lt) after rfl
          exact ⟨_, _, .element tag h hnext⟩

theorem exists_spans_split (events : Events) : ∃ rest?, Spans events (Content.split events).1 rest? := by
  obtain ⟨content, rest?, h⟩ := exists_spans events
  exact ⟨rest?, h.content_eq.symm ▸ h⟩

/-- In a checked stream the end tag behind the content is that of the innermost element, and what stands before it is
nested. -/
theorem exists_nested (h : Spans events content (some rest)) {name : String} {opened : List String}
    (hnest : events.nest (name :: opened) = events) (hfault : content.fault? = none) :
    ∃ inner, Nested inner content ∧ events = inner.append (.cons (.closing name) rest) ∧ rest.nest opened = rest := by
  generalize hrest : some rest = rest? at h
  induction h generalizing rest name opened with
  | ended | unclosed => cases hrest
  | failed fault => cases hfault
  | closing found after =>
    cases hrest
    rw [Events.nest] at hnest
    split at hnest
    · next hname =>
      subst hname
      exact ⟨.ended, .ended, rfl, (Events.cons.inj hnest).2⟩
    · cases hnest
  | text characters _ ih =>
    obtain ⟨inner, hinner, rfl, hafter⟩ := ih (Events.cons.inj hnest).2 hfault hrest
    exact ⟨_, .text characters hinner, rfl, hafter⟩
  | void tag _ ih =>
    obtain ⟨inner, hinner, rfl, hafter⟩ := ih (Events.cons.inj hnest).2 hfault hrest
    exact ⟨_, .void tag hinner, rfl, hafter⟩
  | aside _ ih =>
    obtain ⟨inner, hinner, rfl, hafter⟩ := ih (Events.cons.inj hnest).2 hfault hrest
    exact ⟨_, .aside hinner, rfl, hafter⟩
  | element tag _ _ ihbody ihnext =>
    obtain ⟨hbodyFault, hnextFault⟩ := Option.or_eq_none_iff.mp hfault
    obtain ⟨inner, hinner, rfl, hmiddle⟩ := ihbody (Events.cons.inj hnest).2 hbodyFault rfl
    obtain ⟨more, hmore, rfl, hafter⟩ := ihnext hmiddle hnextFault hrest
    refine ⟨_, .element tag hinner hmore, ?_, hafter⟩
    simp only [Events.append, Events.append_assoc]

end Spans

theorem Nested.spans {inner : Events} {content : Content} (h : Nested inner content) (name : String) (rest : Events) :
    Spans (inner.append (.cons (.closing name) rest)) content (some rest) := by
  induction h generalizing name rest with
  | ended => exact .closing name rest
  | text characters _ ih => exact .text characters (ih name rest)
  | void tag _ ih => exact .void tag (ih name rest)
  | aside _ ih => exact .aside (ih name rest)
  | element tag _ _ ihbody ihnext =>
    simp only [Events.append, Events.append_assoc]
    exact .element tag (ihbody tag.name _) (ihnext name rest)

/-! ### What is read of an element -/

/-- The events that follow a start tag are read up to the end of its element and no further. -/
inductive ReadsThrough (tag : Tag) (events rest : Events) : Prop
  /-- The last event read is the element's own end tag, and those before it close what they open. -/
  | closed {inner : Events} {content : Content} (hinner : Nested inner content)
    (heq : events = inner.append (.cons (.closing tag.name) rest))
  /-- There is no end tag that could be the element's own, and all events are read. -/
  | unclosed (hnever : ∀ inner content name after, Nested inner content →
      events ≠ inner.append (.cons (.closing name) after))
    (hfault : events.fault? = none) (hrest : rest = .ended)

/-- There is only one place to stop. -/
theorem ReadsThrough.unique {tag : Tag} {events rest other : Events} (h : ReadsThrough tag events rest)
    (hother : ReadsThrough tag events other) : other = rest := by
  cases h with
  | closed hinner heq =>
    subst heq
    cases hother with
    | closed hotherInner heq =>
      have hspans := hotherInner.spans tag.name other
      rw [← heq] at hspans
      exact Option.some.inj ((hinner.spans tag.name rest).unique hspans).2
    | unclosed hnever => exact absurd rfl (hnever _ _ _ _ hinner)
  | unclosed hnever hfault hrest =>
    cases hother with
    | closed hinner heq => exact absurd heq (hnever _ _ _ _ hinner)
    | unclosed _ _ hother => rw [hrest, hother]

theorem Spans.readsThrough {tag : Tag} {events : Events} {content : Content} {rest? : Option Events}
    {opened : List String} (h : Spans events content rest?) (hnest : events.nest (tag.name :: opened) = events)
    (hfault : content.fault? = none) : ReadsThrough tag events (rest?.getD .ended) := by
  cases rest? with
  | some rest =>
    obtain ⟨inner, hinner, heq, -⟩ := h.exists_nested hnest hfault
    exact .closed hinner heq
  | none =>
    refine .unclosed (fun inner other name after hinner heq => ?_) ?_ rfl
    · have hspans := hinner.spans name after
      rw [← heq] at hspans
      cases (h.unique hspans).2
    · have hcontents := h.contents_eq
      rw [← Content.findSome?_fault?_split, show _ :: _ = [content] from hcontents, List.findSome?_cons, hfault,
        List.findSome?_nil]

/-! ### Events further on -/

/-- Reading the first events, one after the other, leads to the second ones. -/
inductive Events.Reaches : Events → Events → Prop
  | here {events : Events} : Reaches events events
  | later {event : Event} {first second : Events} (h : Reaches first second) : Reaches (.cons event first) second

namespace Events

theorem nest_nest (events : Events) (opened : List String) : (events.nest opened).nest opened = events.nest opened := by
  induction events generalizing opened with
  | ended => rfl
  | failed fault => rfl
  | cons event rest ih =>
    cases event with
    | opening tag => simp only [nest, ih]
    | closing name =>
      cases opened with
      | nil => rfl
      | cons innermost outer =>
        by_cases hname : name = innermost
        · simp only [nest, if_pos hname, ih]
        · simp only [nest, if_neg hname]
    | text characters => simp only [nest, ih]
    | void tag => simp only [nest, ih]
    | aside => simp only [nest, ih]

/-- What follows in a checked stream is checked against the elements that are open there. -/
theorem Reaches.exists_nest {first second : Events} (h : Reaches first second) {opened : List String}
    (hnest : first.nest opened = first) : ∃ outer, second.nest outer = second := by
  induction h generalizing opened with
  | here => exact ⟨opened, hnest⟩
  | @later event _ _ _ ih =>
    cases event with
    | opening tag => exact ih (cons.inj hnest).2
    | closing name =>
      cases opened with
      | nil => cases hnest
      | cons innermost outer =>
        rw [nest] at hnest
        split at hnest
        · exact ih (cons.inj hnest).2
        · cases hnest
    | text characters => exact ih (cons.inj hnest).2
    | void tag => exact ih (cons.inj hnest).2
    | aside => exact ih (cons.inj hnest).2

/-- After a start tag of a text, its element is the innermost one open. -/
theorem Reaches.exists_nest_opening {text : String} {tag : Tag} {events : Events}
    (h : (ofText text).Reaches (.cons (.opening tag) events)) :
    ∃ opened, events.nest (tag.name :: opened) = events := by
  obtain ⟨opened, hnest⟩ := h.exists_nest (nest_nest _ _)
  exact ⟨opened, (cons.inj hnest).2⟩

end Events

end RegistryBindings.Markup
