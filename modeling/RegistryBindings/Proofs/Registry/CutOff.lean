import RegistryBindings.Proofs.Registry.Asides
import RegistryBindings.Proofs.Registry.Collecting

/-!
# Texts that break off

A text may end before its elements do. Where it breaks off inside a tag, a comment or a reference, reading stops
there. Anywhere else the elements that are still open end with the text: it is read as if their end tags
followed, and whether they are written makes no difference. So a part of a registry is refused for what is
missing in it, and otherwise accepted as a smaller registry.

The argument is on streams. End tags at the end of a stream put empty contents after those that are there, and
the content that the stream begins with stays as it was.
-/

namespace RegistryBindings.Markup

/-! ### End tags at the end of a stream -/

namespace Events

def endTags (names : List String) : Events :=
  names.foldr (fun name rest => cons (.closing name) rest) ended

/-- The events, and after them an end tag for each element that is open. -/
def completed (events : Events) : Events :=
  events.append (endTags (events.openedAfter []))

theorem nest_endTags (names : List String) : (endTags names).nest names = endTags names := by
  induction names with
  | nil => rfl
  | cons name names ih =>
    change (cons (.closing name) (endTags names)).nest (name :: names) = cons (.closing name) (endTags names)
    rw [nest, if_pos rfl, ih]

theorem nest_completed (events : Events) :
    events.completed.nest [] = (events.nest []).append (endTags (events.openedAfter [])) := by
  rw [completed, nest_append, nest_endTags]

theorem openedAfter_endTags (names : List String) : (endTags names).openedAfter names = [] := by
  induction names with
  | nil => rfl
  | cons name names ih => exact ih

theorem openedAfter_append {events : Events} (h : events.fault? = none) (opened : List String) (more : Events) :
    (events.append more).openedAfter opened = more.openedAfter (events.openedAfter opened) := by
  induction events generalizing opened with
  | ended => rfl
  | failed fault => cases h
  | cons event rest ih => cases event <;> exact ih h _

/-- A stream without a fault has nothing open once it is completed. -/
theorem openedAfter_completed {events : Events} (h : events.fault? = none) :
    events.completed.openedAfter [] = [] := by
  rw [completed, openedAfter_append h, openedAfter_endTags]

theorem contents_endTags (names : List String) :
    (endTags names).contents = .done :: List.replicate names.length .done := by
  induction names with
  | nil => rfl
  | cons name names ih =>
    rw [List.length_cons, List.replicate_succ, ← ih]
    exact contents_closing name _

/-- The contents that end tags add are empty, and come after the others. -/
theorem exists_contents_append_endTags (events : Events) (names : List String) :
    ∃ count, (events.append (endTags names)).contents =
      events.contents ++ List.replicate count Content.done := by
  induction events with
  | ended => exact ⟨names.length, contents_endTags names⟩
  | failed fault => exact ⟨0, (List.append_nil _).symm⟩
  | cons event rest ih =>
    obtain ⟨count, hcount⟩ := ih
    have hrest : rest.contents = (Content.split rest).1 :: (Content.split rest).2 := rfl
    cases event with
    | text characters =>
      exact ⟨count, by rw [append, contents_text, contents_text, hcount, hrest]; rfl⟩
    | void tag => exact ⟨count, by rw [append, contents_void, contents_void, hcount, hrest]; rfl⟩
    | aside => exact ⟨count, by rw [append, contents_aside, contents_aside, hcount]⟩
    | closing name => exact ⟨count, by rw [append, contents_closing, contents_closing, hcount]; rfl⟩
    | opening tag =>
      rw [append, contents_opening, contents_opening, hcount, hrest]
      cases (Content.split rest).2 with
      | cons next outer => exact ⟨count, rfl⟩
      | nil =>
        -- The element had no end, and the first of the end tags ends it.
        cases count with
        | zero => exact ⟨0, rfl⟩
        | succ count => exact ⟨count, rfl⟩

theorem split_append_endTags (events : Events) (names : List String) :
    (Content.split (events.append (endTags names))).1 = (Content.split events).1 := by
  obtain ⟨count, hcount⟩ := exists_contents_append_endTags events names
  exact (List.cons.inj hcount).1

/-! ### Faults of a stream -/

theorem isSome_fault?_nest {events : Events} (h : events.fault?.isSome) (opened : List String) :
    (events.nest opened).fault?.isSome := by
  induction events generalizing opened with
  | ended => cases h
  | failed fault => rfl
  | cons event rest ih =>
    cases event with
    | opening tag => exact ih h _
    | text characters => exact ih h _
    | void tag => exact ih h _
    | aside => exact ih h _
    | closing name =>
      simp only [nest]
      split
      · rfl
      · split
        · exact ih h _
        · rfl

/-- Of the contents of a checked stream only those can come after an end tag whose elements were open. -/
theorem length_contents_nest_le (events : Events) (opened : List String) :
    (events.nest opened).contents.length ≤ opened.length + 1 := by
  induction events generalizing opened with
  | ended => exact Nat.le_add_left _ _
  | failed fault => exact Nat.le_add_left _ _
  | cons event rest ih =>
    cases event with
    | text characters =>
      rw [nest, contents_text, List.length_modifyHead]
      exact ih opened
    | void tag =>
      rw [nest, contents_void, List.length_modifyHead]
      exact ih opened
    | aside => exact ih opened
    | opening tag =>
      rw [nest, contents_opening]
      have hrest := ih (tag.name :: opened)
      rw [List.length_cons] at hrest
      rcases hcontents : (rest.nest (tag.name :: opened)).contents with - | ⟨body, - | ⟨next, outer⟩⟩
      · exact Nat.zero_le _
      · exact Nat.le_add_left _ _
      · rw [hcontents] at hrest
        exact Nat.le_of_succ_le_succ hrest
    | closing name =>
      simp only [nest]
      split
      · exact Nat.le_add_left _ _
      · next innermost outer =>
        split
        · rw [contents_closing]
          exact Nat.succ_le_succ (ih outer)
        · exact Nat.le_add_left _ _

theorem fault?_split_nest (events : Events) :
    (Content.split (events.nest [])).1.fault? = (events.nest []).fault? := by
  have hlength := length_contents_nest_le events []
  have hnil : (Content.split (events.nest [])).2 = [] :=
    List.eq_nil_of_length_eq_zero (Nat.le_zero.mp (Nat.le_of_succ_le_succ hlength))
  rw [← Content.findSome?_fault?_split, hnil, List.findSome?_cons, List.findSome?_nil]
  cases (Content.split (events.nest [])).1.fault? <;> rfl

end Events

end RegistryBindings.Markup

namespace RegistryBindings.Registry

open Markup

/-! ### Documents -/

variable {text : List Char} {selection : Selection}

/-- A text that breaks off inside markup is no registry. -/
theorem exists_error_of_fault (h : (scan text).fault?.isSome) (selection : Selection) :
    ∃ error, read (String.ofList text) selection = .error error := by
  rw [read_eq_readEvents]
  cases hread : readEvents ((scan text).nest []) selection with
  | error error => exact ⟨error, rfl⟩
  | ok registry =>
    obtain ⟨declarations, hdeclarations, -⟩ := exists_ok_of_bind hread
    have hfault := (readDeclarations_eq_ok_iff.mp hdeclarations).1
    rw [Events.fault?_split_nest] at hfault
    have hsome := Events.isSome_fault?_nest h []
    rw [hfault] at hsome
    cases hsome

theorem read_eq_readEvents_completed (text : List Char) (selection : Selection) :
    read (String.ofList text) selection = readEvents ((scan text).completed.nest []) selection := by
  rw [read_eq_readEvents, Events.nest_completed, readEvents, readEvents, Events.split_append_endTags]

def IsEndTag (name : String) (text : List Char) : Prop :=
  scan text = .cons (.closing name) .ended

theorem merged_scan_flatten {names : List String} {texts : List (List Char)}
    (h : List.Forall₂ IsEndTag names texts) :
    (scan texts.flatten).merged = (Events.endTags names).merged := by
  induction h with
  | nil => rw [List.flatten_nil, scan, Events.endTags, List.foldr_nil]
  | @cons name text names texts htag _ ih =>
    have hscan : scan text = .cons (.closing name) .ended := htag
    have hfault : (scan text).fault? = none := hscan ▸ rfl
    rw [List.flatten_cons, merged_scan_append hfault, hscan]
    exact Events.merged_cons_congr ih (.closing name)

/-- A text that breaks off inside markup is refused. Any other is read as if an end tag followed for each
element that is still open, so it is accepted if the completed text is, and means the same; and to write the end
tags changes nothing. -/
theorem read_cut_off (text : List Char) (selection : Selection) :
    ((scan text).fault?.isSome → ∃ error, read (String.ofList text) selection = .error error) ∧
    read (String.ofList text) selection = readEvents ((scan text).completed.nest []) selection ∧
    ((scan text).fault? = none →
      (scan text).completed.openedAfter [] = [] ∧
        ∀ endTags, List.Forall₂ IsEndTag ((scan text).openedAfter []) endTags →
          read (String.ofList (text ++ endTags.flatten)) selection = read (String.ofList text) selection) := by
  refine ⟨fun h => exists_error_of_fault h selection, read_eq_readEvents_completed text selection, fun h => ?_⟩
  refine ⟨Events.openedAfter_completed h, fun endTags hendTags => ?_⟩
  have hmerged := Events.merged_append_congr (merged_scan_flatten hendTags) (scan text)
  rw [read_append h, readEvents_nest_congr hmerged, read_eq_readEvents_completed text]
  rfl

/-- A registry with a command and a feature, as far as the start tag of the feature's block. -/
def brokenOff : List Char :=
  ["<registry><commands><command><proto>void <name>glFlush</name></proto></command></commands>",
    "<feature api='gl' name='GL_VERSION_1_0'><require>"].flatMap String.toList

def missingPart : List Char :=
  "<command name='glFlush'/></require></feature></registry>".toList

/-- The end tags alone. One of them has a blank in it. -/
def missingEndTags : List (List Char) :=
  ["</require>", "</feature >", "</registry>"].map String.toList

def enclosed (name : String) (inner rest : Events) : Events :=
  .cons (.opening ⟨name, []⟩) (inner.append (.cons (.closing name) rest))

theorem scan_brokenOff :
    scan brokenOff = .cons (.opening ⟨"registry", []⟩)
      (enclosed "commands"
        (enclosed "command"
          (enclosed "proto"
            (.cons (.text "void ".toList) (enclosed "name" (.cons (.text "glFlush".toList) .ended) .ended)) .ended)
          .ended)
        (.cons (.opening ⟨"feature", [⟨"api", "gl"⟩, ⟨"name", "GL_VERSION_1_0"⟩]⟩)
          (.cons (.opening ⟨"require", []⟩) .ended))) := by
  decide +kernel

theorem openedAfter_brokenOff : (scan brokenOff).openedAfter [] = ["require", "feature", "registry"] := by
  rw [scan_brokenOff]
  rfl

theorem fault?_brokenOff : (scan brokenOff).fault? = none := by
  rw [scan_brokenOff]
  rfl

theorem read_cut_off_brokenOff :
    read (String.ofList (brokenOff ++ missingEndTags.flatten)) {} = read (String.ofList brokenOff) {} ∧
      ∃ error, read (String.ofList "<registry><commands".toList) {} = .error error := by
  have htags : List.Forall₂ IsEndTag ((scan brokenOff).openedAfter []) missingEndTags := by
    rw [openedAfter_brokenOff]
    refine .cons ?_ (.cons ?_ (.cons ?_ .nil))
    all_goals
      rw [IsEndTag]
      decide +kernel
  exact ⟨((read_cut_off brokenOff {}).2.2 fault?_brokenOff).2 _ htags,
    (read_cut_off "<registry><commands".toList {}).1 (by decide +kernel)⟩

/-- Elements that are open at the end are no error: a part of a registry is accepted, and has fewer commands. -/
theorem read_brokenOff_ne :
    (scan brokenOff).openedAfter [] = ["require", "feature", "registry"] ∧
      (read (String.ofList brokenOff) {}).toOption.map (fun registry =>
        registry.versions.map fun version => version.commands.map (·.name)) = some [[]] ∧
      (read (String.ofList (brokenOff ++ missingPart)) {}).toOption.map (fun registry =>
        registry.versions.map fun version => version.commands.map (·.name)) = some [["glFlush"]] := by
  refine ⟨openedAfter_brokenOff, ?_, ?_⟩
  · rw [read_eq_readEvents, scan_brokenOff]
    decide +kernel
  · rw [read_append fault?_brokenOff, scan_brokenOff]
    decide +kernel

end RegistryBindings.Registry
