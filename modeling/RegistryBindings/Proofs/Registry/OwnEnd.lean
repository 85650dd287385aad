import RegistryBindings.Proofs.Registry.CutOff
import RegistryBindings.Proofs.Registry.OnePass

/-!
# Readers stop at the end of their own element

A reader of events follows a reader of content if it makes of every stream what the other one makes of the content in
front, and leaves the events that come after that content. Readers that are put together follow what is put together in
the same way, so that each of them needs to be looked at only once, and one pass over a document makes the same of it
as the walk through its content.

What the events are when the reader has stopped is then a matter of the content alone, and a reader that fails at every
fault has left the element by the element's own end tag, or has come to the end of a text that never closes it.
-/

namespace RegistryBindings.Registry

open Markup

variable {α β σ : Type}

/-! ### Following -/

/-- The reader makes of events what is made of their content, and leaves those after it. No fault is passed over. -/
structure Reader.Follows (reader : Reader α) (onContent : Content → Except ReadError α) : Prop where
  read_eq : ∀ {events content rest?}, Spans events content rest? →
    reader.read events = (onContent content).map fun value => (value, rest?.getD .ended)
  fault?_eq : ∀ {content value}, onContent content = .ok value → content.fault? = none

namespace Reader.Follows

/-- The first step looks at no event. -/
theorem after_lift {result : Except ReadError α} {reader : α → Reader β}
    {onContent : α → Content → Except ReadError β} (h : ∀ value, (reader value).Follows (onContent value)) :
    Reader.Follows (do reader (← result)) fun content => do onContent (← result) content where
  read_eq hspans := by
    cases result with
    | error error => rfl
    | ok value => exact (h value).read_eq hspans
  fault?_eq hvalue := by
    obtain ⟨value, -, hcontent⟩ := exists_ok_of_bind hvalue
    exact (h value).fault?_eq hcontent

/-- The last step looks at no event. -/
theorem before_lift {reader : Reader α} {next : α → Reader β} {onContent : Content → Except ReadError α}
    {result : α → Except ReadError β} (h : reader.Follows onContent)
    (hnext : ∀ value, next value = .lift (result value)) :
    Reader.Follows (do next (← reader)) fun content => do result (← onContent content) where
  read_eq {events content rest?} hspans := by
    change (reader.read events >>= fun found => (next found.1).read found.2) = _
    rw [h.read_eq hspans]
    cases onContent content with
    | error error => rfl
    | ok value =>
      change (next value).read (rest?.getD .ended) = (result value).map fun value => (value, rest?.getD .ended)
      rw [hnext]
      cases result value <;> rfl
  fault?_eq hvalue := by
    obtain ⟨value, hcontent, -⟩ := exists_ok_of_bind hvalue
    exact h.fault?_eq hcontent

end Reader.Follows

/-! ### Passing over an element -/

theorem skip_element (tag : Tag) (body next : Content) :
    skip (.element tag body next) = (do skip body; skip next) := by
  simp only [skip, Content.fault?]
  cases body.fault? <;> rfl

/-- The count goes down by one over the content of an element and its end tag. -/
theorem afterEnd_eq {events : Events} {content : Content} {rest? : Option Events} (h : Spans events content rest?)
    (depth : Nat) :
    afterEnd (depth + 1) events = (do
      skip content
      match rest?, depth with
      | none, _ => return .ended
      | some rest, 0 => return rest
      | some rest, depth + 1 => afterEnd (depth + 1) rest) := by
  induction h generalizing depth with
  | ended => rfl
  | failed fault => rfl
  | closing name rest => cases depth <;> rfl
  | text characters _ ih => exact ih depth
  | void tag _ ih => exact ih depth
  | aside _ ih => exact ih depth
  | element tag _ _ ihbody ihnext =>
    rw [afterEnd, ihbody, skip_element, bind_assoc]
    exact congrArg _ (funext fun _ => ihnext depth)
  | unclosed tag _ ih =>
    rw [afterEnd, ih, skip_element, bind_assoc]
    rfl

theorem follows_passOver : passOver.Follows skip where
  read_eq {events content rest?} hspans := by
    change (do return ((), ← afterEnd 1 events)) = _
    rw [afterEnd_eq hspans 0]
    cases skip content with
    | error error => rfl
    | ok value => cases rest? <;> rfl
  fault?_eq := fault?_of_skip

/-! ### Scanning an element -/

/-- The scanner does with each event what the visitor does with its part of the content. -/
structure Scanner.Mirrors (scanner : Scanner σ) (visitor : Visitor σ) : Prop where
  text_eq : scanner.text = visitor.text
  void_eq : scanner.void = visitor.void
  follows : ∀ state tag, (scanner.element state tag).Follows (visitor.element state tag)

theorem Scanner.scan_opening (scanner : Scanner σ) (state : σ) (tag : Tag) (rest : Events) :
    scanner.scan state (.cons (.opening tag) rest) = (do
      let (state, after) ← (scanner.element state tag).read rest
      scanner.scan state after) := by
  rw [Scanner.scan]
  split
  · next hread =>
    simp only [hread]
    rfl
  · next hread =>
    simp only [hread]
    rfl

theorem Scanner.Mirrors.scan_eq {scanner : Scanner σ} {visitor : Visitor σ} (h : scanner.Mirrors visitor)
    {events : Events} {content : Content} {rest? : Option Events} (hspans : Spans events content rest?) (state : σ) :
    scanner.scan state events =
      (visitor.visit state content).map fun value => (value, rest?.getD .ended) := by
  induction hspans generalizing state with
  | ended =>
    rw [Scanner.scan]
    rfl
  | failed fault =>
    rw [Scanner.scan]
    rfl
  | closing name rest =>
    rw [Scanner.scan]
    rfl
  | text characters _ ih =>
    rw [Scanner.scan, h.text_eq]
    exact ih _
  | void tag _ ih =>
    rw [Scanner.scan, h.void_eq, Visitor.visit]
    cases visitor.void state tag with
    | error error => rfl
    | ok state => exact ih state
  | aside _ ih =>
    rw [Scanner.scan]
    exact ih state
  | @element tag events after body next rest? hbody _ _ ih =>
    rw [Scanner.scan_opening, (h.follows state tag).read_eq hbody, Visitor.visit]
    cases visitor.element state tag body with
    | error error => rfl
    | ok state => exact ih state
  | @unclosed tag events body hbody _ =>
    rw [Scanner.scan_opening, (h.follows state tag).read_eq hbody, Visitor.visit]
    cases visitor.element state tag body with
    | error error => rfl
    | ok state =>
      change scanner.scan state .ended = _
      rw [Scanner.scan]
      rfl

theorem Scanner.Mirrors.run {scanner : Scanner σ} {visitor : Visitor σ} (h : scanner.Mirrors visitor) (state : σ) :
    (scanner.run state).Follows (visitor.visit state) where
  read_eq hspans := h.scan_eq hspans state
  fault?_eq := fault?_of_visit fun state tag _ _ hafter => (h.follows state tag).fault?_eq hafter

theorem mirrors_items (read : σ → Tag → Except ReadError σ) : (Scanner.items read).Mirrors (.items read) where
  text_eq := rfl
  void_eq := rfl
  follows _ _ := .after_lift fun _ => follows_passOver.before_lift fun _ => rfl

theorem mirrors_sections {read : String → Option (σ → Tag → Reader σ)}
    {visit : String → Option (σ → Tag → Content → Except ReadError σ)}
    (h : ∀ name, Option.Rel (fun readElement visitElement =>
      ∀ state tag, (readElement state tag).Follows (visitElement state tag)) (read name) (visit name)) :
    (Scanner.sections read).Mirrors (.sections visit) where
  text_eq := rfl
  void_eq := rfl
  follows state tag := by
    simp only [Scanner.sections, Visitor.sections]
    have hname := h tag.name
    generalize read tag.name = readElement?, visit tag.name = visitElement? at hname
    cases hname with
    | some hfollows => exact hfollows state tag
    | none => exact follows_passOver.before_lift fun _ => rfl

/-! ### The elements of a registry -/

theorem follows_listing (tag : Tag) : (listingReader tag).Follows (readListing tag) :=
  .after_lift fun _ => ((mirrors_items _).run []).before_lift fun _ => rfl

theorem mirrors_listings : listingScanner.Mirrors listingVisitor := by
  refine mirrors_sections fun name => ?_
  by_cases hgroup : name = "group"
  · subst hgroup
    exact .some fun _ tag => (follows_listing tag).before_lift fun _ => rfl
  · simp only
    exact .none

theorem mirrors_text : textScanner.Mirrors textVisitor where
  text_eq := rfl
  void_eq := rfl
  follows _ _ := follows_passOver.before_lift fun _ => rfl

theorem mirrors_declaration : declarationScanner.Mirrors declarationVisitor where
  text_eq := rfl
  void_eq := rfl
  follows declaration tag := by
    simp only [declarationScanner, declarationVisitor]
    generalize tag.name = name
    by_cases hptype : name = "ptype"
    · subst hptype
      exact (mirrors_text.run []).before_lift fun _ => rfl
    by_cases hname : name = "name"
    · subst hname
      exact (mirrors_text.run []).before_lift fun _ => rfl
    · simp only
      exact follows_passOver.before_lift fun _ => rfl

theorem follows_declaration (tag : Tag) : (declarationReader tag).Follows (readDeclaration tag) := by
  refine (mirrors_declaration.run {}).before_lift fun declaration => ?_
  cases declaration.name? <;> rfl

theorem mirrors_parts : partScanner.Mirrors partVisitor := by
  refine mirrors_sections fun name => ?_
  by_cases hproto : name = "proto"
  · subst hproto
    exact .some fun _ tag => (follows_declaration tag).before_lift fun _ => rfl
  by_cases hparam : name = "param"
  · subst hparam
    exact .some fun _ tag => (follows_declaration tag).before_lift fun _ => rfl
  · simp only
    exact .none

theorem follows_command : commandReader.Follows readCommand := by
  refine (mirrors_parts.run {}).before_lift fun command => ?_
  cases command.proto? <;> rfl

theorem mirrors_commands : commandScanner.Mirrors commandVisitor := by
  refine mirrors_sections fun name => ?_
  by_cases hcommand : name = "command"
  · subst hcommand
    exact .some fun _ _ => follows_command.before_lift fun _ => rfl
  · simp only
    exact .none

theorem follows_block (kind : BlockKind) (tag : Tag) : (blockReader kind tag).Follows (readBlock kind tag) :=
  (mirrors_items _).run _

theorem mirrors_blocks : blockScanner.Mirrors blockVisitor := by
  refine mirrors_sections fun name => ?_
  by_cases hrequire : name = "require"
  · subst hrequire
    exact .some fun _ tag => (follows_block .require tag).before_lift fun _ => rfl
  by_cases hremove : name = "remove"
  · subst hremove
    exact .some fun _ tag => (follows_block .remove tag).before_lift fun _ => rfl
  · simp only
    exact .none

theorem follows_feature (tag : Tag) : (featureReader tag).Follows (readFeature tag) :=
  .after_lift fun _ => .after_lift fun _ => (mirrors_blocks.run []).before_lift fun _ => rfl

theorem follows_extension (tag : Tag) : (extensionReader tag).Follows (readExtension tag) :=
  .after_lift fun _ => (mirrors_blocks.run []).before_lift fun _ => rfl

/-! ### A whole document -/

/-- A section that has a reader of events has a reader of content that it follows. -/
theorem exists_follows_of_sectionReader? {selection : Selection} {declarations : Declarations} {tag : Tag}
    {reader : Reader Declarations} (h : sectionReader? selection declarations tag = some reader) :
    ∃ onContent, reader.Follows onContent ∧
      ∀ content, readSection? selection declarations tag content = some (onContent content) := by
  unfold sectionReader? at h
  split at h
  · next hname =>
    cases h
    refine ⟨_, (mirrors_items _).run declarations, fun content => ?_⟩
    simp only [readSection?, hname]
    rfl
  · next hname =>
    cases h
    refine ⟨_, mirrors_listings.run declarations, fun content => ?_⟩
    simp only [readSection?, hname]
  · next hname =>
    cases h
    refine ⟨_, mirrors_commands.run declarations, fun content => ?_⟩
    simp only [readSection?, hname]
  · next hname =>
    cases h
    refine ⟨_, (follows_feature tag).before_lift fun _ => rfl, fun content => ?_⟩
    simp only [readSection?, hname]
    rfl
  · next hname =>
    cases h
    refine ⟨_, (follows_extension tag).before_lift fun _ => rfl, fun content => ?_⟩
    simp only [readSection?, hname]
    rfl
  · cases h

theorem not_isSection_of_sectionReader? {selection : Selection} {declarations : Declarations} {tag : Tag}
    (h : sectionReader? selection declarations tag = none) : ¬ IsSection tag := by
  unfold sectionReader? at h
  split at h
  case h_6 henums hgroups hcommands hfeature hextension =>
    simpa [IsSection] using ⟨henums, hgroups, hcommands, hfeature, hextension⟩
  all_goals cases h

/-- A section is read, and what follows its element is read from there on. -/
theorem foldlM_enclose_section {selection : Selection} {declarations : Declarations} {tag : Tag} {body : Content}
    {result : Except ReadError Declarations} (h : readSection? selection declarations tag body = some result)
    (outer : List Content) :
    (Content.enclose tag (body :: outer)).foldlM (readOutside selection) (some declarations) =
      (do outer.foldlM (readOutside selection) (some (← result))) := by
  cases outer with
  | nil =>
    simp only [Content.enclose, List.foldlM_cons, readOutside, Option.bind_some, h]
    cases result <;> rfl
  | cons next outer =>
    simp only [Content.enclose, List.foldlM_cons, readOutside, Option.bind_some, h]
    cases result <;> rfl

/-- An element that is looked through might as well not be there. -/
theorem foldlM_enclose_through {selection : Selection} {declarations? : Option Declarations} {tag : Tag}
    (h : ¬ (declarations?.isSome ∧ IsSection tag)) (body : Content) (outer : List Content) :
    (Content.enclose tag (body :: outer)).foldlM (readOutside selection) declarations? =
      (body :: outer).foldlM (readOutside selection) (entered? declarations? tag) := by
  cases outer with
  | nil =>
    simp only [Content.enclose, List.foldlM_cons, readOutside_through h]
    cases readOutside selection (entered? declarations? tag) body <;> rfl
  | cons next outer =>
    simp only [Content.enclose, List.foldlM_cons, readOutside_through h, bind_assoc]

theorem scanOutside_section {selection : Selection} {declarations : Declarations} {tag : Tag}
    {reader : Reader Declarations} (h : sectionReader? selection declarations tag = some reader) (rest : Events) :
    scanOutside selection (some declarations) (.cons (.opening tag) rest) = (do
      let (declarations, after) ← reader.read rest
      scanOutside selection (some declarations) after) := by
  rw [scanOutside, Option.bind_some]
  split
  · next found hfound =>
    cases hfound.symm.trans h
    split
    · next hread =>
      simp only [hread]
      rfl
    · next hread =>
      simp only [hread]
      rfl
  · next hnone => cases hnone.symm.trans h

theorem scanOutside_through {selection : Selection} {declarations? : Option Declarations} {tag : Tag}
    (h : (declarations?.bind fun declarations => sectionReader? selection declarations tag) = none) (rest : Events) :
    scanOutside selection declarations? (.cons (.opening tag) rest) =
      scanOutside selection (entered? declarations? tag) rest := by
  rw [scanOutside]
  split
  · next hsome => cases hsome.symm.trans h
  · rfl

/-- What the pass makes of events is what the walk makes of their contents, one after the other. -/
theorem scanOutside_eq (selection : Selection) (declarations? : Option Declarations) (events : Events) :
    scanOutside selection declarations? events = events.contents.foldlM (readOutside selection) declarations? := by
  induction hlength : events.length using Nat.strongRecOn generalizing events declarations? with
  | _ length ih =>
    subst hlength
    cases events with
    | ended =>
      rw [scanOutside]
      rfl
    | failed fault =>
      rw [scanOutside]
      rfl
    | cons event rest =>
      have hrest (declarations? : Option Declarations) := ih rest.length (Nat.lt_succ_self _) declarations? rest rfl
      cases event with
      | text characters =>
        rw [scanOutside, hrest, Events.contents_text]
        rfl
      | void tag =>
        rw [scanOutside, hrest, Events.contents_void]
        rfl
      | aside => rw [scanOutside, hrest, Events.contents_aside]
      | closing name =>
        rw [scanOutside, hrest, Events.contents_closing]
        rfl
      | opening tag =>
        obtain ⟨rest?, hspans⟩ := Spans.exists_spans_split rest
        have hcontents := hspans.contents_eq
        rw [Events.contents_opening, hcontents]
        cases hreader : declarations?.bind fun declarations => sectionReader? selection declarations tag with
        | none =>
          have hsection : ¬ (declarations?.isSome ∧ IsSection tag) := by
            rintro ⟨hsome, htag⟩
            obtain ⟨declarations, rfl⟩ := Option.isSome_iff_exists.mp hsome
            exact not_isSection_of_sectionReader? hreader htag
          rw [scanOutside_through hreader, hrest, hcontents, foldlM_enclose_through hsection]
        | some reader =>
          obtain ⟨declarations, rfl, hreader⟩ := Option.bind_eq_some_iff.mp hreader
          obtain ⟨onContent, hfollows, hread⟩ := exists_follows_of_sectionReader? hreader
          rw [scanOutside_section hreader, hfollows.read_eq hspans, foldlM_enclose_section (hread _)]
          cases onContent (Content.split rest).1 with
          | error error => rfl
          | ok declarations =>
            change scanOutside selection (some declarations) (rest?.getD .ended) = _
            cases rest? with
            | none =>
              rw [Option.getD_none, scanOutside]
              rfl
            | some after =>
              rw [Option.getD_some, ih after.length (Nat.lt_succ_of_lt hspans.length_lt) _ after rfl]
              rfl

theorem contents_ofText (text : String) : (Events.ofText text).contents = [Content.ofText text] := by
  have hlength : (Events.ofText text).contents.length ≤ 1 := Events.length_contents_nest_le _ []
  exact congrArg (_ :: ·) (List.eq_nil_of_length_eq_zero (Nat.le_zero.mp (Nat.le_of_succ_le_succ hlength)))

theorem readInOnePass_eq (text : String) (selection : Selection) :
    readInOnePass text selection = read text selection := by
  rw [readInOnePass, scanOutside_eq, contents_ofText, List.foldlM_cons, read, readDeclarations]
  cases readOutside selection none (Content.ofText text) with
  | error error => rfl
  | ok declarations? => cases declarations? <;> rfl

/-! ### The end of an element -/

theorem follows_elementReader (element : ElementReader α) : element.reader.Follows element.onContent := by
  cases element with
  | enums selection block declarations => exact (mirrors_items _).run declarations
  | groups declarations => exact mirrors_listings.run declarations
  | group tag => exact follows_listing tag
  | commands declarations => exact mirrors_commands.run declarations
  | command => exact follows_command
  | declaration tag => exact follows_declaration tag
  | feature tag => exact follows_feature tag
  | extension tag => exact follows_extension tag
  | blocks => exact mirrors_blocks.run []
  | block kind tag => exact follows_block kind tag
  | text => exact mirrors_text.run []
  | skipped => exact follows_passOver

/-- A reader that succeeds has read its element to the end. -/
theorem Reader.Follows.readsThrough {reader : Reader α} {onContent : Content → Except ReadError α}
    (h : reader.Follows onContent) {tag : Tag} {events rest : Events} {opened : List String} {value : α}
    (hnest : events.nest (tag.name :: opened) = events) (hread : reader.read events = .ok (value, rest)) :
    ReadsThrough tag events rest := by
  obtain ⟨rest?, hspans⟩ := Spans.exists_spans_split events
  rw [h.read_eq hspans] at hread
  obtain ⟨found, hcontent, hfound⟩ := eq_ok_of_map_eq_ok hread
  cases hfound
  exact hspans.readsThrough hnest (h.fault?_eq hcontent)

/-- One pass over the events of a text makes the same of it as the walk through its content, and so does each reader at
each start tag. A reader that succeeds there leaves exactly the events after the end tag of the element that was
opened, whatever is nested in it, and none if the text does not close that element. -/
theorem readsThrough_of_read {text : String} {tag : Tag} {events : Events}
    (h : (Events.ofText text).Reaches (.cons (.opening tag) events)) (selection : Selection)
    (element : ElementReader α) :
    readInOnePass text selection = read text selection ∧
      (element.reader.read events).map (·.1) = element.onContent (Content.split events).1 ∧
      ∀ value rest, element.reader.read events = .ok (value, rest) →
        ReadsThrough tag events rest ∧ ∀ other, ReadsThrough tag events other → other = rest := by
  have hfollows := follows_elementReader element
  obtain ⟨opened, hnest⟩ := h.exists_nest_opening
  refine ⟨readInOnePass_eq text selection, ?_, fun value rest hread => ?_⟩
  · obtain ⟨rest?, hspans⟩ := Spans.exists_spans_split events
    rw [hfollows.read_eq hspans]
    cases element.onContent (Content.split events).1 <;> rfl
  · have hthrough := hfollows.readsThrough hnest hread
    exact ⟨hthrough, fun other hother => hthrough.unique hother⟩

/-- What stands in `brokenOff` between the tags of its command. -/
def insideCommand : Events :=
  enclosed "proto"
    (.cons (.text "void ".toList) (enclosed "name" (.cons (.text "glFlush".toList) .ended) .ended)) .ended

/-- What stands in it after the command, where a feature is opened and not closed. -/
def afterCommand : Events :=
  .cons (.closing "commands")
    (.cons (.opening ⟨"feature", [⟨"api", "gl"⟩, ⟨"name", "GL_VERSION_1_0"⟩]⟩)
      (.cons (.opening ⟨"require", []⟩) .ended))

/-- What stands in it after the start tag of the registry, which is not closed either. -/
def insideRegistry : Events :=
  .cons (.opening ⟨"commands", []⟩)
    (.cons (.opening ⟨"command", []⟩) (insideCommand.append (.cons (.closing "command") afterCommand)))

theorem readsThrough_of_read_brokenOff :
    commandReader.read (insideCommand.append (.cons (.closing "command") afterCommand)) =
        .ok (⟨"glFlush", ⟨"void", none⟩, []⟩, afterCommand) ∧
      ReadsThrough ⟨"command", []⟩ (insideCommand.append (.cons (.closing "command") afterCommand)) afterCommand ∧
      passOver.read insideRegistry = .ok ((), .ended) ∧ ReadsThrough ⟨"registry", []⟩ insideRegistry .ended := by
  have hevents : Events.ofText (String.ofList brokenOff) = .cons (.opening ⟨"registry", []⟩) insideRegistry := by
    have hmark : brokenOff.head? ≠ some '\uFEFF' := by decide
    rw [ofText_ofList hmark, scan_brokenOff]
    decide
  have hregistry : (Events.ofText (String.ofList brokenOff)).Reaches
      (.cons (.opening ⟨"registry", []⟩) insideRegistry) := hevents ▸ .here
  have hcommand : (Events.ofText (String.ofList brokenOff)).Reaches
      (.cons (.opening ⟨"command", []⟩) (insideCommand.append (.cons (.closing "command") afterCommand))) :=
    hevents ▸ .later (.later .here)
  have hread : commandReader.read (insideCommand.append (.cons (.closing "command") afterCommand)) =
      .ok (⟨"glFlush", ⟨"void", none⟩, []⟩, afterCommand) := by
    decide +kernel
  have hpassed : passOver.read insideRegistry = .ok ((), .ended) := by
    decide
  refine ⟨hread, ?_, hpassed, ?_⟩
  · exact ((readsThrough_of_read hcommand {} .command).2.2 _ _ hread).1
  · exact ((readsThrough_of_read hregistry {} .skipped).2.2 _ _ hpassed).1

end RegistryBindings.Registry
