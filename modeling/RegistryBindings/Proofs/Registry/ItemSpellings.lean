import RegistryBindings.Proofs.Registry.UnknownElements

/-!
# Elements that are known by their tag

Enumerants and the items of listings and blocks are read for their tags alone. Such an element can be written as one
void tag, as a start tag and an end tag, and with anything nested between the two: the result of reading the document
is the same, and so is the error where there is one. What stands between the tags is skipped, even if it would have a
meaning outside of them.

A slash before the closing bracket of a start tag makes it a void tag and leaves its name and attributes as they are.
The rest is the argument on places: where an item stands, its tag is read in the same way from either spelling.
-/

namespace RegistryBindings

namespace Markup

/-! ### A slash before the closing bracket -/

theorem eq_append_of_closeTag {quote? : Option Quote} {text inside rest : List Char}
    (h : closeTag quote? text = .ok (inside, rest)) : text = inside ++ '>' :: rest := by
  induction text generalizing quote? inside with
  | nil => cases quote? <;> cases h
  | cons c text ih =>
    unfold closeTag at h
    split at h
    · split at h
      · next hclosing =>
        cases h
        rw [hclosing, List.nil_append]
      · obtain ⟨found, hread, hfound⟩ := eq_ok_of_map_eq_ok h
        cases hfound
        rw [ih hread, List.cons_append]
    · obtain ⟨found, hread, hfound⟩ := eq_ok_of_map_eq_ok h
      cases hfound
      rw [ih hread, List.cons_append]

theorem closeTag_slash {quote? : Option Quote} {inside rest : List Char}
    (h : closeTag quote? (inside ++ '>' :: rest) = .ok (inside, rest)) :
    closeTag quote? (inside ++ '/' :: '>' :: rest) = .ok (inside ++ ['/'], rest) := by
  induction inside generalizing quote? with
  | nil =>
    cases quote? with
    | none => rfl
    | some quote =>
      obtain ⟨found, -, hfound⟩ := eq_ok_of_map_eq_ok h
      cases hfound
  | cons c inside ih =>
    rw [List.cons_append] at h ⊢
    unfold closeTag at h ⊢
    split at h
    · split at h
      · cases h
      · next hclosing =>
        obtain ⟨found, hread, hfound⟩ := eq_ok_of_map_eq_ok h
        cases hfound
        rw [if_neg hclosing, ih hread]
        rfl
    · obtain ⟨found, hread, hfound⟩ := eq_ok_of_map_eq_ok h
      cases hfound
      rw [ih hread]
      rfl

def IsStartTag (tag : Tag) (inside : List Char) : Prop :=
  scan ('<' :: (inside ++ ['>'])) = .cons (.opening tag) .ended

instance (tag : Tag) (inside : List Char) : Decidable (IsStartTag tag inside) :=
  inferInstanceAs (Decidable (_ = _))

theorem tagEvent_slash {tag : Tag} {c : Char} {inside : List Char} (h : tagEvent (c :: inside) = .opening tag) :
    tagEvent (c :: inside ++ ['/']) = .void tag := by
  have hslash : c ≠ '/' := by
    rintro rfl
    cases h
  have hopening : tagEvent (c :: inside) =
      if (c :: inside).getLast? = some '/' then .void (Tag.ofText (c :: inside).dropLast)
      else .opening (Tag.ofText (c :: inside)) := by
    unfold tagEvent
    split
    · next hcons => exact absurd (List.cons.inj hcons).1 hslash
    · rfl
  rw [hopening] at h
  split at h
  · cases h
  · cases h
    unfold tagEvent
    split
    · next hcons => exact absurd (List.cons.inj hcons).1 hslash
    · rw [if_pos List.getLast?_concat, List.dropLast_concat]

variable {tag : Tag} {inside : List Char}

theorem IsStartTag.nextMarkup_eq (h : IsStartTag tag inside) :
    nextMarkup (inside ++ ['>']) = .ok (.opening tag, []) := by
  rw [IsStartTag, scan] at h
  split at h
  · cases h
  · next event rest hnext =>
    injection h with hevent hrest
    cases rest with
    | nil =>
      rw [nextEvent, if_pos rfl] at hnext
      rw [hnext, hevent]
    | cons c rest =>
      rw [scan] at hrest
      split at hrest <;> cases hrest

/-- What is known of the characters of a start tag. -/
theorem IsStartTag.exists_cons (h : IsStartTag tag inside) (hname : tag.name ≠ "") :
    ∃ c more, inside = c :: more ∧ c ≠ '!' ∧ c ≠ '?' ∧ closeTag none (inside ++ ['>']) = .ok (inside, []) ∧
      tagEvent inside = .opening tag := by
  have hmarkup := h.nextMarkup_eq
  unfold nextMarkup at hmarkup
  split at hmarkup
  · cases hmarkup
  · obtain ⟨found, -, hfound⟩ := eq_ok_of_map_eq_ok hmarkup
    cases hfound
  · obtain ⟨found, -, hfound⟩ := eq_ok_of_map_eq_ok hmarkup
    cases hfound
  · next hmark hquestion =>
    obtain ⟨⟨found, rest⟩, hread, hfound⟩ := eq_ok_of_map_eq_ok hmarkup
    obtain ⟨hevent, rfl⟩ := Prod.mk.inj hfound
    obtain rfl : inside = found := List.append_cancel_right (eq_append_of_closeTag hread)
    cases inside with
    | nil =>
      cases hevent
      exact absurd rfl hname
    | cons c more =>
      have hne {mark : Char} (hmark : ∀ text, c :: more ++ ['>'] = mark :: text → False) : c ≠ mark :=
        fun heq => hmark (more ++ ['>']) (congrArg (· :: (more ++ ['>'])) heq)
      exact ⟨c, more, rfl, hne hmark, hne hquestion, hread, hevent⟩

theorem IsStartTag.scan_void (h : IsStartTag tag inside) (hname : tag.name ≠ "") :
    scan ('<' :: (inside ++ ['/', '>'])) = .cons (.void tag) .ended := by
  obtain ⟨c, more, rfl, hmark, hquestion, hclose, hevent⟩ := h.exists_cons hname
  have hmarkup : nextMarkup (c :: more ++ ['/', '>']) = .ok (tagEvent (c :: more ++ ['/']), []) :=
    nextMarkup_of_closeTag hmark hquestion (closeTag_slash hclose)
  have hnext : nextEvent '<' (c :: more ++ ['/', '>']) = .ok (.void tag, []) := by
    rw [nextEvent, if_pos rfl, hmarkup, tagEvent_slash hevent]
  rw [List.cons_append] at hnext ⊢
  rw [scan_cons hnext, scan]

end Markup

namespace Registry

open Markup

/-! ### The spellings of an item -/

def Place.itemNames : Place → List String
  | enums | group => ["enum"]
  | block => ["enum", "command"]
  | outside | groups | commands | command | declaration | text | interface | skipped => []

/-- The ways to write an element of which only the tag matters. Between two tags there may be nothing, or any
content that is nested. -/
inductive Spells (tag : Tag) : List Char → Prop
  | void {inside : List Char} (hinside : IsStartTag tag inside) : Spells tag ('<' :: (inside ++ ['/', '>']))
  | enclosing {inside body closing : List Char} (hinside : IsStartTag tag inside)
    (hbody : ∃ content, Nested (scan body) content) (hclosing : scan closing = .cons (.closing tag.name) .ended) :
    Spells tag ('<' :: (inside ++ ['>']) ++ (body ++ closing))

section Items

variable {selection : Selection} {entered : Bool} {place : Place} {tag : Tag} {body next : Content}

theorem Place.ne_empty_of_mem_itemNames {name : String} (h : name ∈ place.itemNames) : name ≠ "" := by
  rintro rfl
  cases place <;> exact absurd h (by decide)

/-- The tag of an item is read alike in either spelling, and then its content is skipped. -/
theorem Reads.element_of_mem_itemNames {σ : Type} {visitor : Visitor σ} (h : Reads selection place visitor)
    (hname : tag.name ∈ place.itemNames) (state : σ) :
    visitor.element state tag body = (visitor.void state tag >>= fun state => skip body >>= fun _ => .ok state) := by
  cases h with
  | enums | group | block => rfl
  | groups | commands | command | declaration | text | interface | skipped => cases hname

theorem sameAt_item (hname : tag.name ∈ place.itemNames) (hbody : body.fault? = none) :
    SameAt selection entered place (.element tag body next) (.void tag next) where
  outside hplace := by
    subst hplace
    cases hname
  inside hvisitor state := by
    rw [Visitor.visit, Visitor.visit, hvisitor.element_of_mem_itemNames hname, skip_eq_ok hbody]
    exact congrArg (· >>= _) (bind_pure (_ : Except ReadError _))

/-- Whatever follows a spelling of an item, the events of the item are nested, and mean what its tag means. -/
theorem Spells.exists_events {text : List Char} (h : Spells tag text) (hname : tag.name ∈ place.itemNames)
    (after : List Char) :
    ∃ events content, (scan (text ++ after)).merged = (events.append (scan after)).merged ∧
      Nested events content ∧ ∀ next, SameAt selection entered place (content.append next) (.void tag next) := by
  cases h with
  | void hinside =>
    have hscan := hinside.scan_void (Place.ne_empty_of_mem_itemNames hname)
    refine ⟨.cons (.void tag) .ended, .void tag .done, ?_, .void tag .ended, fun next => .refl _⟩
    rw [merged_scan_append (by rw [hscan]; rfl), hscan]
  | @enclosing inside body closing hinside hbody hclosing =>
    obtain ⟨content, hcontent⟩ := hbody
    refine ⟨.cons (.opening tag) ((scan body).append (.cons (.closing tag.name) .ended)),
      .element tag content .done, ?_, .element tag hcontent .ended,
      fun next => sameAt_item hname hcontent.fault?_content⟩
    have hopening : scan ('<' :: (inside ++ ['>'])) = .cons (.opening tag) .ended := hinside
    have hclosed : (scan (closing ++ after)).merged = (Events.cons (.closing tag.name) (scan after)).merged := by
      rw [merged_scan_append (by rw [hclosing]; rfl), hclosing]
      rfl
    rw [List.append_assoc, List.append_assoc, merged_scan_append (by rw [hopening]; rfl), hopening]
    refine Events.merged_cons_congr ?_ (.opening tag)
    rw [Events.append, Events.append_assoc]
    exact (merged_scan_append hcontent.fault?_events _).trans (Events.merged_append_congr hclosed (scan body))

/-- Wherever an item stands in a document, it can be written in any of its spellings: what is read stays the same, and
so does what is wrong. -/
theorem read_spelling (selection : Selection) {before first second after : List Char} (hbefore : StandsAt before place)
    (hname : tag.name ∈ place.itemNames) (hfirst : Spells tag first) (hsecond : Spells tag second) :
    read (String.ofList (before ++ (first ++ after))) selection =
      read (String.ofList (before ++ (second ++ after))) selection := by
  obtain ⟨events, content, hscan, hnested, hsame⟩ := hfirst.exists_events hname after
  obtain ⟨events', content', hscan', hnested', hsame'⟩ := hsecond.exists_events hname after
  exact read_append_congr hbefore hscan hnested hscan' hnested' fun next => (hsame next).trans (hsame' next).symm

end Items

def itemBefore : List Char :=
  "<registry><enums group='Mode'><enum name='GL_LINE' value='1'/>".toList

def itemAfter : List Char :=
  ["</enums><feature api='gl' name='GL_VERSION_1_0'><require>", "<enum name='GL_LINE'/><enum name='GL_FILL'/>",
    "</require></feature></registry>"].flatMap String.toList

def fillTag : List Char :=
  "enum name='GL_FILL' value='2'".toList

/-- What would mean something in another place. -/
def fillBody : Content :=
  .element ⟨"enums", []⟩ (.void ⟨"enum", [⟨"name", "GL_LINE"⟩, ⟨"value", "3"⟩]⟩ (.void ⟨"enum", []⟩ .done))
    (.element ⟨"registry", []⟩ .done .done)

def fillSpellings : List (List Char) :=
  ['<' :: (fillTag ++ ['/', '>']), '<' :: (fillTag ++ ['>']) ++ ([] ++ "</enum>".toList),
    '<' :: (fillTag ++ ['>']) ++ (fillBody.write ++ "</enum >".toList)]

theorem read_spelling_fill :
    (∀ first ∈ fillSpellings, ∀ second ∈ fillSpellings,
      read (String.ofList (itemBefore ++ (first ++ itemAfter))) {} =
        read (String.ofList (itemBefore ++ (second ++ itemAfter))) {}) ∧
      ∀ text ∈ fillSpellings, (read (String.ofList (itemBefore ++ (text ++ itemAfter))) {}).toOption.map
          (fun registry => registry.versions.map fun version => version.groupList.map (·.members)) =
        some [[[⟨"GL_LINE", "LINE", "1"⟩, ⟨"GL_FILL", "FILL", "2"⟩]]] := by
  have hbefore : StandsAt itemBefore .enums := ⟨.inl (by decide +kernel), by decide +kernel⟩
  have hinside : IsStartTag ⟨"enum", [⟨"name", "GL_FILL"⟩, ⟨"value", "2"⟩]⟩ fillTag := by decide +kernel
  have hspells : ∀ text ∈ fillSpellings, Spells ⟨"enum", [⟨"name", "GL_FILL"⟩, ⟨"value", "2"⟩]⟩ text := by
    refine List.forall_iff_forall_mem.mp ⟨.void hinside, ?_, ?_⟩
    · exact .enclosing hinside ⟨.done, by rw [scan]; exact .ended⟩ (by decide +kernel)
    · exact .enclosing hinside ⟨fillBody, nested_write (by decide +kernel)⟩ (by decide +kernel)
  have hsame : ∀ first ∈ fillSpellings, ∀ second ∈ fillSpellings,
      read (String.ofList (itemBefore ++ (first ++ itemAfter))) {} =
        read (String.ofList (itemBefore ++ (second ++ itemAfter))) {} := fun first hfirst second hsecond =>
    read_spelling {} hbefore (by decide) (hspells first hfirst) (hspells second hsecond)
  refine ⟨hsame, fun text htext => ?_⟩
  rw [hsame text htext _ List.mem_cons_self, read_eq_readEvents]
  decide +kernel

end Registry

end RegistryBindings
