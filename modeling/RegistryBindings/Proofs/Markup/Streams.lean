import RegistryBindings.Markup.Content

/-!
# Streams of events

Events can be put one after the other. The end tags of the second ones are then checked against what the first
ones have left open, and the contents they fold into continue those of the first ones. `Nested` is said of
events that leave nothing open and close nothing that they did not open: wherever they stand, what follows them
is read as if they were not there.

Asides part texts and mean nothing else. `Events.merged` leaves them out and makes one text of those that meet,
so that streams are compared by what they say. Checking the end tags does not depend on it.
-/

namespace RegistryBindings.Markup

/-! ### Contents -/

/-- Puts the first content into an element and the second one behind it. -/
def Content.enclose (tag : Tag) : List Content → List Content
  | [] => []
  | [body] => [element tag body done]
  | body :: next :: outer => element tag body next :: outer

namespace Events

/-- The content that the events begin with, and the contents after each end tag left unmatched. -/
def contents (events : Events) : List Content :=
  (Content.split events).1 :: (Content.split events).2

theorem contents_text (characters : List Char) (rest : Events) :
    (cons (.text characters) rest).contents = rest.contents.modifyHead (.text characters) :=
  rfl

theorem contents_void (tag : Tag) (rest : Events) :
    (cons (.void tag) rest).contents = rest.contents.modifyHead (.void tag) :=
  rfl

theorem contents_aside (rest : Events) : (cons .aside rest).contents = rest.contents :=
  rfl

theorem contents_closing (name : String) (rest : Events) :
    (cons (.closing name) rest).contents = .done :: rest.contents :=
  rfl

theorem contents_opening (tag : Tag) (rest : Events) :
    (cons (.opening tag) rest).contents = Content.enclose tag rest.contents := by
  simp only [contents, Content.split]
  cases (Content.split rest).2 <;> rfl

/-! ### One stream after another -/

def append : Events → Events → Events
  | ended, more => more
  | failed fault, _ => failed fault
  | cons event rest, more => cons event (rest.append more)

theorem append_ended (events : Events) : events.append ended = events := by
  induction events with
  | ended => rfl
  | failed fault => rfl
  | cons event rest ih => rw [append, ih]

theorem append_assoc (first second third : Events) :
    (first.append second).append third = first.append (second.append third) := by
  induction first with
  | ended => rfl
  | failed fault => rfl
  | cons event rest ih => rw [append, append, append, ih]

/-- The names of the elements that are open after the events, innermost first. -/
def openedAfter (opened : List String) : Events → List String
  | ended | failed _ => opened
  | cons (.opening tag) rest => rest.openedAfter (tag.name :: opened)
  | cons (.closing _) rest => rest.openedAfter opened.tail
  | cons (.text _) rest | cons (.void _) rest | cons .aside rest => rest.openedAfter opened

theorem nest_append (events more : Events) (opened : List String) :
    (events.append more).nest opened = (events.nest opened).append (more.nest (events.openedAfter opened)) := by
  induction events generalizing opened with
  | ended => rfl
  | failed fault => rfl
  | cons event rest ih =>
    cases event with
    | opening tag => simp only [append, nest, openedAfter, ih]
    | closing name =>
      cases opened with
      | nil => rfl
      | cons innermost outer =>
        by_cases hname : name = innermost
        · simp only [append, nest, if_pos hname, openedAfter, List.tail_cons, ih]
        · simp only [append, nest, if_neg hname]
    | text characters => simp only [append, nest, openedAfter, ih]
    | void tag => simp only [append, nest, openedAfter, ih]
    | aside => simp only [append, nest, openedAfter, ih]

/-! ### Texts that meet -/

/-- Puts characters in front of the events. Texts that meet are one text, and no text is empty. -/
def withText : List Char → Events → Events
  | [], events => events
  | characters, cons (.text more) rest => cons (.text (characters ++ more)) rest
  | characters, events => cons (.text characters) events

/-- The events without asides. Texts between which nothing else stands are one text. -/
def merged : Events → Events
  | ended => ended
  | failed fault => failed fault
  | cons (.text characters) rest => rest.merged.withText characters
  | cons .aside rest => rest.merged
  | cons (.opening tag) rest => cons (.opening tag) rest.merged
  | cons (.closing name) rest => cons (.closing name) rest.merged
  | cons (.void tag) rest => cons (.void tag) rest.merged

theorem merged_cons_congr {first second : Events} (h : first.merged = second.merged) (event : Event) :
    (cons event first).merged = (cons event second).merged := by
  cases event <;> simp only [merged, h]

theorem merged_append_congr {first second : Events} (h : first.merged = second.merged) (events : Events) :
    (events.append first).merged = (events.append second).merged := by
  induction events with
  | ended => exact h
  | failed fault => rfl
  | cons event rest ih => exact merged_cons_congr ih event

theorem withText_append (first second : List Char) (events : Events) :
    events.withText (first ++ second) = (events.withText second).withText first := by
  cases first with
  | nil => rfl
  | cons c first =>
    cases second with
    | nil => rw [List.append_nil]; rfl
    | cons d second =>
      cases events with
      | ended => rfl
      | failed fault => rfl
      | cons event rest => cases event <;> simp [withText]

theorem nest_withText (characters : List Char) (events : Events) (opened : List String) :
    (events.withText characters).nest opened = (events.nest opened).withText characters := by
  cases characters with
  | nil => rfl
  | cons c characters =>
    cases events with
    | ended => rfl
    | failed fault => rfl
    | cons event rest =>
      cases event with
      | closing name =>
        simp only [withText, nest]
        split
        · rfl
        · split <;> rfl
      | text more => rfl
      | opening tag => rfl
      | void tag => rfl
      | aside => rfl

theorem contents_withText_tail (characters : List Char) (events : Events) :
    (events.withText characters).contents.tail = events.contents.tail := by
  cases characters with
  | nil => rfl
  | cons c characters =>
    cases events with
    | ended => rfl
    | failed fault => rfl
    | cons event rest => cases event <;> rfl

theorem merged_nest (events : Events) (opened : List String) :
    (events.nest opened).merged = events.merged.nest opened := by
  induction events generalizing opened with
  | ended => rfl
  | failed fault => rfl
  | cons event rest ih =>
    cases event with
    | opening tag => simp only [nest, merged, ih]
    | closing name =>
      simp only [nest, merged]
      split
      · rfl
      · split
        · simp only [merged, ih]
        · rfl
    | text characters => simp only [nest, merged, ih, nest_withText]
    | void tag => simp only [nest, merged, ih]
    | aside => simp only [nest, merged, ih]

end Events

/-! ### Nested events -/

namespace Content

/-- The first content, and after it the second one if the first has no fault at its end. -/
def append : Content → Content → Content
  | done, more => more
  | failed fault, _ => failed fault
  | text characters next, more => text characters (next.append more)
  | void tag next, more => void tag (next.append more)
  | element tag body next, more => element tag body (next.append more)

theorem append_done (content : Content) : content.append done = content := by
  induction content with
  | done => rfl
  | failed fault => rfl
  | text characters next ih => rw [append, ih]
  | void tag next ih => rw [append, ih]
  | element tag body next _ ih => rw [append, ih]

end Content

/-- Events that close what they open and nothing else, and their content. -/
inductive Nested : Events → Content → Prop
  | ended : Nested .ended .done
  | text (characters : List Char) {rest : Events} {next : Content} (hnext : Nested rest next) :
    Nested (.cons (.text characters) rest) (.text characters next)
  | void (tag : Tag) {rest : Events} {next : Content} (hnext : Nested rest next) :
    Nested (.cons (.void tag) rest) (.void tag next)
  | aside {rest : Events} {next : Content} (hnext : Nested rest next) : Nested (.cons .aside rest) next
  | element (tag : Tag) {inner rest : Events} {body next : Content} (hbody : Nested inner body)
    (hnext : Nested rest next) :
    Nested (.cons (.opening tag) (inner.append (.cons (.closing tag.name) rest))) (.element tag body next)

namespace Nested

variable {events : Events} {content : Content}

theorem fault?_content (h : Nested events content) : content.fault? = none := by
  induction h with
  | ended => rfl
  | text _ _ ih => exact ih
  | void _ _ ih => exact ih
  | aside _ ih => exact ih
  | element tag _ _ ihbody ihnext => rw [Content.fault?, ihbody, ihnext, Option.none_or]

/-- What follows is checked against what was open before. -/
theorem nest_append (h : Nested events content) (more : Events) (opened : List String) :
    (events.append more).nest opened = events.append (more.nest opened) := by
  induction h generalizing more opened with
  | ended => rfl
  | text _ _ ih => simp only [Events.append, Events.nest, ih]
  | void _ _ ih => simp only [Events.append, Events.nest, ih]
  | aside _ ih => simp only [Events.append, Events.nest, ih]
  | element tag _ _ ihbody ihnext =>
    simp only [Events.append, Events.append_assoc, Events.nest, ihbody, if_pos, ihnext]

theorem nest_eq (h : Nested events content) (opened : List String) : events.nest opened = events := by
  have happend := h.nest_append .ended opened
  rwa [Events.append_ended, Events.nest, Events.append_ended] at happend

/-- What follows stands behind the content, on the same level. -/
theorem contents_append (h : Nested events content) (more : Events) :
    (events.append more).contents = more.contents.modifyHead content.append := by
  induction h generalizing more with
  | ended => rfl
  | text _ _ ih =>
    rw [Events.append, Events.contents_text, ih, List.modifyHead_modifyHead]
    rfl
  | void _ _ ih =>
    rw [Events.append, Events.contents_void, ih, List.modifyHead_modifyHead]
    rfl
  | aside _ ih =>
    rw [Events.append, Events.contents_aside, ih]
  | element tag _ _ ihbody ihnext =>
    rw [Events.append, Events.append_assoc, Events.append, Events.contents_opening, ihbody,
      Events.contents_closing, ihnext, List.modifyHead_cons, Content.append_done]
    rfl

theorem contents_eq (h : Nested events content) : events.contents = [content] := by
  have happend := h.contents_append .ended
  rw [Events.append_ended] at happend
  exact happend.trans (congrArg ([·]) content.append_done)

end Nested

end RegistryBindings.Markup
