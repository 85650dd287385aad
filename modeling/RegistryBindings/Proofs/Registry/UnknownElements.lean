import RegistryBindings.Proofs.Registry.Asides

/-!
# Elements without a meaning

Inside a section an element that the reader does not know is opaque: whatever it holds, the document without it
is read with the same result. Outside the sections it is transparent: whatever it holds is read as if the
element's tags were not there. Both hold at any place of any document, and of faults and errors as well.

What follows a text is read at the place that the text's open elements lead to, which `Position.after` keeps
track of event by event. A change to what follows is a change to one of the contents that the events fold into,
the one at that place. `Along` says so of two lists of contents, and `along_append` carries it back over the
events in front, from the innermost open element to the document.
-/

namespace RegistryBindings.Registry

open Markup

/-! ### Positions -/

/-- Where the next event stands: whether the registry element was opened before, and the places of the elements
that are open, innermost first. The last of the places is the document's. -/
structure Position where
  entered : Bool := false
  places : List Place := [.outside]
deriving DecidableEq, Repr

namespace Position

def opened (position : Position) (name : String) : Position :=
  match position.places with
  | [] => position
  | place :: outer =>
    ⟨position.entered || name = "registry", place.child position.entered name :: place :: outer⟩

def closed (position : Position) : Position :=
  { position with places := position.places.tail }

def after (position : Position) : Events → Position
  | .ended | .failed _ => position
  | .cons (.opening tag) rest => (position.opened tag.name).after rest
  | .cons (.closing _) rest => position.closed.after rest
  | .cons (.text _) rest | .cons (.void _) rest | .cons .aside rest => position.after rest

end Position

/-- The contents at the places are the same but for one pair, and that is the same at its place. -/
inductive Along (selection : Selection) : Position → List Content → List Content → Prop
  | here {entered : Bool} {place : Place} {outer : List Place} {first second : Content} {after : List Content}
    (h : SameAt selection entered place first second) :
    Along selection ⟨entered, place :: outer⟩ (first :: after) (second :: after)
  | later {entered : Bool} {place : Place} {outer : List Place} {content : Content} {first second : List Content}
    (h : Along selection ⟨entered || content.Opens "registry", outer⟩ first second) :
    Along selection ⟨entered, place :: outer⟩ (content :: first) (content :: second)

section Along

variable {selection : Selection} {position : Position} {first second : List Content}

theorem Along.places_ne_nil (h : Along selection position first second) : position.places ≠ [] := by
  cases h <;> simp

theorem Along.text (characters : List Char) (h : Along selection position first second) :
    Along selection position (first.modifyHead (.text characters)) (second.modifyHead (.text characters)) := by
  cases h with
  | here h => exact .here (h.text characters)
  | later h => exact .later h

theorem Along.void (tag : Tag) (h : Along selection position first second) :
    Along selection position (first.modifyHead (.void tag)) (second.modifyHead (.void tag)) := by
  cases h with
  | here h => exact .here (h.void tag)
  | later h => exact .later h

theorem Along.closing (h : Along selection position.closed first second) :
    Along selection position (.done :: first) (.done :: second) := by
  obtain ⟨entered, places⟩ := position
  cases places with
  | nil => exact absurd rfl h.places_ne_nil
  | cons place outer =>
    refine .later ?_
    have hopens : (entered || decide (Content.done.Opens "registry")) = entered := Bool.or_false entered
    rwa [hopens]

/-- The pair that is not the same stands in the element, or behind it, or further out. -/
theorem Along.opening {tag : Tag} (h : Along selection (position.opened tag.name) first second) :
    Along selection position (Content.enclose tag first) (Content.enclose tag second) := by
  obtain ⟨entered, places⟩ := position
  cases places with
  | nil => exact absurd rfl h.places_ne_nil
  | cons place outer =>
    cases h with
    | @here _ _ _ _ _ after h =>
      cases after with
      | nil => exact .here (h.element (.refl _))
      | cons next outer => exact .here (h.element (.refl _))
    | @later _ _ _ body _ _ h =>
      cases h with
      | here h => exact .here (.element (.refl _) h)
      | @later _ _ _ next _ _ h =>
        have hopens : (entered || decide ((Content.element tag body next).Opens "registry")) =
            (entered || decide (tag.name = "registry") || decide (body.Opens "registry") ||
              decide (next.Opens "registry")) := by
          rw [Bool.eq_iff_iff]
          simp only [Bool.or_eq_true, decide_eq_true_iff]
          simp only [Content.Opens, or_assoc]
        rw [← hopens] at h
        exact .later h

/-- What is the same behind the events is the same with the events in front of it. -/
theorem along_append (events : Events) {position : Position} {more other : Events}
    (h : Along selection (position.after events) more.contents other.contents) :
    Along selection position (events.append more).contents (events.append other).contents := by
  induction events generalizing position with
  | ended => exact h
  | failed fault =>
    obtain ⟨entered, places⟩ := position
    cases places with
    | nil => exact absurd rfl h.places_ne_nil
    | cons place outer => exact .here (.refl _)
  | cons event rest ih =>
    cases event with
    | opening tag =>
      rw [Events.append, Events.append, Events.contents_opening, Events.contents_opening]
      exact (ih h).opening
    | closing name =>
      have hrest : Along selection position.closed (rest.append more).contents (rest.append other).contents := ih h
      exact hrest.closing
    | text characters => exact (ih h).text characters
    | void tag => exact (ih h).void tag
    | aside => exact ih h

theorem Along.sameAt {content other : Content} {after after' : List Content}
    (h : Along selection {} (content :: after) (other :: after')) :
    SameAt selection false .outside content other := by
  cases h with
  | here h => exact h
  | later h => exact .refl _

end Along

/-! ### A change at one place -/

def positionAfter (before : List Char) : Position :=
  Position.after {} ((scan before).nest [])

/-- Before the registry's start tag there are no sections, and a section may stand deeper than that tag. -/
example :
    ["<registry><tables><enums>", "<registry><groups><group>", "<registry><commands><command><param><ptype>",
      "<registry><feature><require>", "<registry><commands><note>", "<enums>"].map
        (fun text => (positionAfter text.toList).places.head?) =
      [some .enums, some .group, some .text, some .block, some .skipped, some .outside] := by decide +kernel

section Change

variable {selection : Selection} {before : List Char} {place : Place}

/-- What follows a text counts for as much as it does at the innermost place that is open there. -/
theorem readEvents_append_congr {more other : Events}
    (hplace : (positionAfter before).places.head? = some place)
    (h : ∀ opened, ∃ first second after, (more.nest opened).contents = first :: after ∧
      (other.nest opened).contents = second :: after ∧
        SameAt selection (positionAfter before).entered place first second) :
    readEvents (((scan before).append more).nest []) selection =
      readEvents (((scan before).append other).nest []) selection := by
  obtain ⟨first, second, after, hfirst, hsecond, hsame⟩ := h ((scan before).openedAfter [])
  obtain ⟨outer, hplaces⟩ := List.head?_eq_some_iff.mp hplace
  have halong : Along selection (positionAfter before) (first :: after) (second :: after) := by
    have hposition : positionAfter before = ⟨(positionAfter before).entered, place :: outer⟩ :=
      hplaces ▸ rfl
    rw [hposition]
    exact .here hsame
  rw [← hfirst, ← hsecond] at halong
  rw [Events.nest_append, Events.nest_append]
  exact readEvents_congr (along_append _ halong).sameAt

/-- Nested events in front of what follows. -/
theorem contents_nest_append {events : Events} {content : Content} (h : Nested events content) (more : Events)
    (opened : List String) :
    ((events.append more).nest opened).contents =
      content.append (Content.split (more.nest opened)).1 :: (Content.split (more.nest opened)).2 := by
  rw [h.nest_append, h.contents_append]
  rfl

/-! ### What an element without a meaning is worth -/

variable {entered : Bool} {tag : Tag} {body content next : Content}

theorem sameAt_void (hplace : place ≠ .outside) (hname : tag.name ∉ place.knownNames) :
    SameAt selection entered place (.void tag next) next where
  outside h := absurd h hplace
  inside hvisitor state := by
    rw [Visitor.visit, hvisitor.void_of_not_mem hname]
    rfl

theorem sameAt_element (hplace : place ≠ .outside) (hname : tag.name ∉ place.knownNames)
    (hbody : body.fault? = none) : SameAt selection entered place (.element tag body next) next where
  outside h := absurd h hplace
  inside hvisitor state := by
    rw [Visitor.visit, hvisitor.element_of_not_mem hname, skip_eq_ok hbody]
    rfl

theorem readOutside_append (declarations? : Option Declarations) (content next : Content) :
    readOutside selection declarations? (content.append next) =
      readOutside selection declarations? content >>= fun after => readOutside selection after next := by
  induction content generalizing declarations? with
  | done => rfl
  | failed fault => rfl
  | text characters rest ih => exact ih declarations?
  | void tag rest ih => exact ih declarations?
  | element tag body rest _ ih =>
    by_cases hsection : declarations?.isSome ∧ IsSection tag
    · obtain ⟨declarations, rfl⟩ := Option.isSome_iff_exists.mp hsection.1
      obtain ⟨result, hresult⟩ := exists_readSection? hsection.2 selection declarations body
      rw [Content.append, readOutside, readOutside, Option.bind_some, hresult]
      simp only [ih, bind_assoc]
    · rw [Content.append, readOutside_through hsection, readOutside_through hsection]
      simp only [ih, bind_assoc]

theorem sameAt_wrapped (hname : tag.name ∉ Place.outside.knownNames) :
    SameAt selection entered .outside (.element tag content next) (content.append next) where
  outside _ declarations? _ := by
    have hsection : ¬ IsSection tag := fun h => hname (List.mem_cons_of_mem _ h)
    have hregistry : tag.name ≠ "registry" := fun h => hname (h ▸ List.mem_cons_self)
    rw [readOutside_through fun h => hsection h.2, entered?, if_neg hregistry, readOutside_append]
  inside hvisitor := absurd rfl hvisitor.ne_outside

end Change

/-! ### Documents -/

/-- The text ends outside markup and references, at that place. -/
structure StandsAt (before : List Char) (place : Place) : Prop where
  endsOutside : EndsOutside before
  head?_places : (positionAfter before).places.head? = some place

/-- The text is one element: a void tag, or a start tag, nested content and the end tag. -/
def IsElement (tag : Tag) (text : List Char) : Prop :=
  Nested (scan text) (.void tag .done) ∨ ∃ body, Nested (scan text) (.element tag body .done)

structure AreTags (tag : Tag) (opening closing : List Char) : Prop where
  opening : scan opening = .cons (.opening tag) .ended
  closing : scan closing = .cons (.closing tag.name) .ended

section Documents

variable {selection : Selection} {before after : List Char} {place : Place} {tag : Tag}

/-- A text that follows another one counts for what its nested events are worth there. -/
theorem read_append_congr (hbefore : StandsAt before place) {more other : List Char} {events : Events}
    {content kept : Content} {rest : Events}
    (hmore : (scan more).merged = (events.append (scan after)).merged) (hevents : Nested events content)
    (hother : (scan other).merged = (rest.append (scan after)).merged) (hrest : Nested rest kept)
    (h : ∀ next, SameAt selection (positionAfter before).entered place (content.append next) (kept.append next)) :
    read (String.ofList (before ++ more)) selection = read (String.ofList (before ++ other)) selection := by
  rcases hbefore.endsOutside with hends | hstopped
  · rw [read_append hends, read_append hends,
      readEvents_nest_congr (Events.merged_append_congr hmore (scan before)),
      readEvents_nest_congr (Events.merged_append_congr hother (scan before))]
    refine readEvents_append_congr hbefore.head?_places fun opened => ?_
    exact ⟨_, _, _, contents_nest_append hevents _ opened, contents_nest_append hrest _ opened, h _⟩
  · rw [read_eq_readEvents, read_eq_readEvents, hstopped, hstopped]

/-- An element that is not known at its place inside a section can be taken out of a document, and outside the
sections elements that are not known can be put around nested content, or taken away: what is read stays the
same, and so does what is wrong. -/
theorem read_unknown_element (selection : Selection) :
    (∀ before element after place tag, StandsAt before place → place ≠ .outside →
      tag.name ∉ place.knownNames → IsElement tag element →
        read (String.ofList (before ++ (element ++ after))) selection =
          read (String.ofList (before ++ after)) selection) ∧
    ∀ before opening run closing after tag, StandsAt before .outside →
      tag.name ∉ Place.outside.knownNames → AreTags tag opening closing → (∃ content, Nested (scan run) content) →
        read (String.ofList (before ++ (opening ++ (run ++ (closing ++ after))))) selection =
          read (String.ofList (before ++ (run ++ after))) selection := by
  refine ⟨?_, ?_⟩
  · intro before element after place tag hbefore hplace hname helement
    rcases helement with hvoid | ⟨body, hopened⟩
    · exact read_append_congr hbefore (merged_scan_append hvoid.fault?_events after) hvoid rfl .ended
        fun next => sameAt_void hplace hname
    · have hbody : body.fault? = none := (Option.or_eq_none_iff.mp hopened.fault?_content).1
      exact read_append_congr hbefore (merged_scan_append hopened.fault?_events after) hopened rfl .ended
        fun next => sameAt_element hplace hname hbody
  · intro before opening run closing after tag hbefore hname htags hrun
    obtain ⟨content, hcontent⟩ := hrun
    have hopening : (scan (opening ++ (run ++ (closing ++ after)))).merged =
        (Events.cons (.opening tag) (scan (run ++ (closing ++ after)))).merged := by
      rw [merged_scan_append (htags.opening ▸ rfl), htags.opening]
      rfl
    have hclosing : (scan (closing ++ after)).merged = (Events.cons (.closing tag.name) (scan after)).merged := by
      rw [merged_scan_append (htags.closing ▸ rfl), htags.closing]
      rfl
    have hwrapped : (scan (opening ++ (run ++ (closing ++ after)))).merged =
        ((Events.cons (.opening tag) ((scan run).append (.cons (.closing tag.name) .ended))).append
          (scan after)).merged := by
      rw [hopening, Events.append, Events.append_assoc]
      refine Events.merged_cons_congr ?_ _
      exact (merged_scan_append hcontent.fault?_events _).trans (Events.merged_append_congr hclosing (scan run))
    exact read_append_congr hbefore hwrapped (.element tag hcontent .ended)
      (merged_scan_append hcontent.fault?_events after) hcontent fun next => sameAt_wrapped hname

end Documents

/-- An element without a meaning in a declaration, with one in it that would have a meaning there. -/
def note : Content :=
  .element ⟨"note", []⟩ (.element ⟨"name", []⟩ (.text "glFinish".toList .done) .done) .done

def flushCommands : Content :=
  .element ⟨"commands", []⟩
    (.element ⟨"command", []⟩
      (.element ⟨"proto", []⟩
        (.text "void ".toList (.element ⟨"name", []⟩ (.text "glFlush".toList .done) .done)) .done) .done) .done

def flushFeature : List Char :=
  ["<feature api='gl' name='GL_VERSION_1_0'>", "<require><command name='glFlush'/>",
    "</require></feature></registry>"].flatMap String.toList

theorem read_unknown_element_flush :
    read (String.ofList (flushBefore ++ (note.write ++ flushAfter))) {} =
        read (String.ofList (flushBefore ++ flushAfter)) {} ∧
      read (String.ofList ("<registry>".toList ++ ("<section kind='core'>".toList ++
          (flushCommands.write ++ ("</section>".toList ++ flushFeature))))) {} =
        read (String.ofList ("<registry>".toList ++ (flushCommands.write ++ flushFeature))) {} ∧
      (read (String.ofList ("<registry>".toList ++ (flushCommands.write ++ flushFeature))) {}).toOption.map
          (fun registry => registry.versions.map (·.commands)) =
        some [[⟨"glFlush", ⟨"void", none⟩, []⟩]] := by
  have hread := read_unknown_element {}
  have hdeclaration : StandsAt flushBefore .declaration := ⟨.inl (by decide +kernel), by decide +kernel⟩
  have hnote : IsElement ⟨"note", []⟩ note.write := .inr ⟨_, nested_write (by decide +kernel)⟩
  have houtside : StandsAt "<registry>".toList .outside := ⟨.inl (by decide +kernel), by decide +kernel⟩
  have htags : AreTags ⟨"section", [⟨"kind", "core"⟩]⟩ "<section kind='core'>".toList "</section>".toList :=
    ⟨by decide +kernel, by decide +kernel⟩
  have hrun : ∃ content, Nested (scan flushCommands.write) content := ⟨_, nested_write (by decide +kernel)⟩
  refine ⟨hread.1 _ _ _ _ _ hdeclaration (by decide) (by decide) hnote,
    hread.2 _ _ _ _ _ _ houtside (by decide) htags hrun, ?_⟩
  rw [read_eq_readEvents]
  decide +kernel

end RegistryBindings.Registry
