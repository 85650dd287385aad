import Mathlib.Data.List.TakeWhile
import RegistryBindings.Proofs.Markup.Streams

/-!
# Writing content, and reading it back

Content is written with start and end tags, void tags closed at once, and attributes in double quotes.
What is written and then read is the same content, if it is plain: its names are words, no character in
its values and texts has a meaning of its own in markup, no tag repeats an attribute, and no two texts
touch. The reader is undone one stage at a time: `scan` finds the events of the content, `nest` lets them
pass, and `split` folds them back.
-/

namespace RegistryBindings.Markup

open Text

/-- A character that means only itself, in an attribute value and outside markup. -/
def isPlain (c : Char) : Bool :=
  c != '<' && c != '>' && c != '&' && c != '\x22' && c != '\x27'

def IsWord (name : String) : Prop :=
  name.toList ≠ [] ∧ ∀ c ∈ name.toList, c.isAlpha = true

instance (name : String) : Decidable (IsWord name) :=
  decidable_of_iff (name.toList ≠ [] ∧ name.toList.all (·.isAlpha) = true) (by simp [IsWord])

def Attribute.write (attr : Attribute) : List Char :=
  ' ' :: attr.name.toList ++ '=' :: '\x22' :: attr.value.toList ++ ['\x22']

def Attribute.Plain (attr : Attribute) : Prop :=
  IsWord attr.name ∧ ∀ c ∈ attr.value.toList, isPlain c = true

instance (attr : Attribute) : Decidable attr.Plain :=
  decidable_of_iff (IsWord attr.name ∧ attr.value.toList.all isPlain = true) (by simp [Attribute.Plain])

namespace Tag

/-- What stands between the brackets of the tag. -/
def write (tag : Tag) : List Char :=
  tag.name.toList ++ tag.attributes.flatMap Attribute.write

structure Plain (tag : Tag) : Prop where
  name : IsWord tag.name
  attributes : ∀ attr ∈ tag.attributes, attr.Plain
  nodup : (tag.attributes.map (·.name)).Nodup

instance (tag : Tag) : Decidable tag.Plain :=
  decidable_of_iff (IsWord tag.name ∧ (∀ attr ∈ tag.attributes, attr.Plain) ∧
      (tag.attributes.map (·.name)).Nodup)
    ⟨fun ⟨name, attributes, nodup⟩ => ⟨name, attributes, nodup⟩,
      fun plain => ⟨plain.name, plain.attributes, plain.nodup⟩⟩

end Tag

namespace Content

def write : Content → List Char
  | done | failed _ => []
  | text characters next => characters ++ next.write
  | void tag next => '<' :: tag.write ++ '/' :: '>' :: next.write
  | element tag body next =>
    '<' :: tag.write ++ '>' :: body.write ++ '<' :: '/' :: tag.name.toList ++ '>' :: next.write

def isText : Content → Bool
  | text _ _ => true
  | _ => false

def Plain : Content → Prop
  | done => True
  | failed _ => False
  | text characters next =>
    characters ≠ [] ∧ (∀ c ∈ characters, isPlain c = true) ∧ next.isText = false ∧ next.Plain
  | void tag next => tag.Plain ∧ next.Plain
  | element tag body next => tag.Plain ∧ body.Plain ∧ next.Plain

def decidablePlain : (content : Content) → Decidable content.Plain
  | done => .isTrue trivial
  | failed _ => .isFalse id
  | text characters next =>
    have := next.decidablePlain
    decidable_of_iff (characters ≠ [] ∧ characters.all isPlain = true ∧ next.isText = false ∧ next.Plain)
      (by rw [List.all_eq_true, Plain])
  | void tag next =>
    have := next.decidablePlain
    inferInstanceAs (Decidable (tag.Plain ∧ next.Plain))
  | element tag body next =>
    have := body.decidablePlain
    have := next.decidablePlain
    inferInstanceAs (Decidable (tag.Plain ∧ body.Plain ∧ next.Plain))

instance (content : Content) : Decidable content.Plain :=
  content.decidablePlain

def events : Content → Events → Events
  | done, rest => rest
  | failed fault, _ => .failed fault
  | text characters next, rest => .cons (.text characters) (next.events rest)
  | void tag next, rest => .cons (.void tag) (next.events rest)
  | element tag body next, rest =>
    .cons (.opening tag) (body.events (.cons (.closing tag.name) (next.events rest)))

end Content

/-! ### Letters and plain characters -/

theorem ne_of_isAlpha {c d : Char} (hc : c.isAlpha = true) (hd : d.isAlpha = false) : c ≠ d := by
  rintro rfl
  rw [hc] at hd
  cases hd

theorem isSpace_of_isAlpha {c : Char} (h : c.isAlpha = true) : isSpace c = false := by
  have hspace := ne_of_isAlpha (d := ' ') h (by decide)
  have htab := ne_of_isAlpha (d := '\t') h (by decide)
  have hreturn := ne_of_isAlpha (d := '\r') h (by decide)
  have hline := ne_of_isAlpha (d := '\n') h (by decide)
  simp [isSpace, hspace, htab, hreturn, hline]

theorem isPlain_of_isAlpha {c : Char} (h : c.isAlpha = true) : isPlain c = true := by
  have hless := ne_of_isAlpha (d := '<') h (by decide)
  have hgreater := ne_of_isAlpha (d := '>') h (by decide)
  have hand := ne_of_isAlpha (d := '&') h (by decide)
  have hdouble := ne_of_isAlpha (d := '\x22') h (by decide)
  have hsingle := ne_of_isAlpha (d := '\x27') h (by decide)
  simp [isPlain, hless, hgreater, hand, hdouble, hsingle]

theorem ofChar?_of_isPlain {c : Char} (h : isPlain c = true) : Quote.ofChar? c = none := by
  simp only [isPlain, Bool.and_eq_true, bne_iff_ne] at h
  rw [Quote.ofChar?, if_neg h.2, if_neg h.1.2]

theorem isTextChar_of_isPlain {c : Char} (h : isPlain c = true) : isTextChar c = true := by
  simp only [isPlain, Bool.and_eq_true, bne_iff_ne] at h
  simp [isTextChar, h.1.1.1.1, h.1.1.2]

/-! ### A tag is closed at its bracket -/

theorem closeTag_cons_of_isPlain {c : Char} (hc : isPlain c = true) (quote? : Option Quote)
    (text : List Char) :
    closeTag quote? (c :: text) = (closeTag quote? text).map fun (inside, rest) => (c :: inside, rest) := by
  have hquote := ofChar?_of_isPlain hc
  cases quote? with
  | none =>
    have hgreater : c ≠ '>' := by
      rintro rfl
      exact absurd hc (by decide)
    rw [closeTag, if_neg hgreater, hquote]
  | some quote =>
    have hne : c ≠ quote.char := by
      rintro rfl
      rw [Quote.ofChar?_eq_some_iff.mpr rfl] at hquote
      cases hquote
    rw [closeTag, if_neg hne]

theorem closeTag_append {plain : List Char} (hplain : ∀ c ∈ plain, isPlain c = true)
    {quote? : Option Quote} {text inside rest : List Char} (h : closeTag quote? text = .ok (inside, rest)) :
    closeTag quote? (plain ++ text) = .ok (plain ++ inside, rest) := by
  induction plain with
  | nil => exact h
  | cons c plain ih =>
    rw [List.cons_append, closeTag_cons_of_isPlain (hplain c List.mem_cons_self),
      ih fun d hd => hplain d (List.mem_cons_of_mem c hd)]
    rfl

theorem closeTag_write_attribute {attr : Attribute} (hattr : attr.Plain) {text inside rest : List Char}
    (h : closeTag none text = .ok (inside, rest)) :
    closeTag none (attr.write ++ text) = .ok (attr.write ++ inside, rest) := by
  have hname : ∀ c ∈ ' ' :: attr.name.toList ++ ['='], isPlain c = true := by
    intro c hc
    simp only [List.cons_append, List.mem_cons, List.mem_append, List.not_mem_nil, or_false] at hc
    rcases hc with rfl | hc | rfl
    · decide
    · exact isPlain_of_isAlpha (hattr.1.2 c hc)
    · decide
  have hclosed : closeTag (some .double) ('\x22' :: text) = .ok ('\x22' :: inside, rest) := by
    rw [closeTag, if_pos (show '\x22' = Quote.double.char from rfl), h]
    rfl
  have hopened : closeTag none ('\x22' :: (attr.value.toList ++ '\x22' :: text)) =
      .ok ('\x22' :: (attr.value.toList ++ '\x22' :: inside), rest) := by
    rw [closeTag, if_neg (by decide), show Quote.ofChar? '\x22' = some .double from rfl,
      closeTag_append hattr.2 hclosed]
    rfl
  simpa [Attribute.write] using closeTag_append hname hopened

theorem closeTag_write {tag : Tag} (htag : tag.Plain) {text inside rest : List Char}
    (h : closeTag none text = .ok (inside, rest)) :
    closeTag none (tag.write ++ text) = .ok (tag.write ++ inside, rest) := by
  have hattributes : ∀ attributes : List Attribute, (∀ attr ∈ attributes, attr.Plain) →
      closeTag none (attributes.flatMap Attribute.write ++ text) =
        .ok (attributes.flatMap Attribute.write ++ inside, rest) := by
    intro attributes hplain
    induction attributes with
    | nil => exact h
    | cons attr attributes ih =>
      rw [List.flatMap_cons, List.append_assoc, List.append_assoc]
      exact closeTag_write_attribute (hplain attr List.mem_cons_self)
        (ih fun other hother => hplain other (List.mem_cons_of_mem attr hother))
  rw [Tag.write, List.append_assoc, List.append_assoc]
  exact closeTag_append (fun c hc => isPlain_of_isAlpha (htag.name.2 c hc))
    (hattributes _ htag.attributes)

/-! ### Attributes are read back -/

theorem takeWhile_append_cons {keep : Char → Bool} {kept : List Char} (h : ∀ c ∈ kept, keep c = true)
    {stop : Char} (hstop : keep stop = false) (rest : List Char) :
    (kept ++ stop :: rest).takeWhile keep = kept := by
  rw [List.takeWhile_append_of_pos h, List.takeWhile_cons_of_neg (by simp [hstop]), List.append_nil]

theorem dropWhile_append_cons {keep : Char → Bool} {kept : List Char} (h : ∀ c ∈ kept, keep c = true)
    {stop : Char} (hstop : keep stop = false) (rest : List Char) :
    (kept ++ stop :: rest).dropWhile keep = stop :: rest := by
  rw [List.dropWhile_append_of_pos h, List.dropWhile_cons_of_neg (by simp [hstop])]

theorem isNameChar_of_isAlpha {c : Char} (h : c.isAlpha = true) : isNameChar c = true := by
  simp [isNameChar, isSpace_of_isAlpha h, ne_of_isAlpha (d := '=') h (by decide)]

theorem after?_quote {value : List Char} (h : '\x22' ∉ value) (rest : List Char) :
    after? ['\x22'] (value ++ '\x22' :: rest) = some rest := by
  induction value with
  | nil => simp [after?, strip?]
  | cons c value ih =>
    have hc : c ≠ '\x22' := by
      rintro rfl
      exact h List.mem_cons_self
    have hvalue : '\x22' ∉ value := fun hmem => h (List.mem_cons_of_mem c hmem)
    rw [List.cons_append, after?, strip?, if_neg hc]
    exact ih hvalue

theorem readAttributes_write_append {seen : List String} {attr : Attribute} (hattr : attr.Plain)
    (hseen : attr.name ∉ seen) (rest : List Char) :
    readAttributes seen (attr.write ++ rest) = attr :: readAttributes (attr.name :: seen) rest := by
  obtain ⟨c, name, hname⟩ := List.exists_cons_of_ne_nil hattr.1.1
  have hletters := hattr.1.2
  rw [hname] at hletters
  have hchars : ∀ d ∈ name, isNameChar d = true :=
    fun d hd => isNameChar_of_isAlpha (hletters d (List.mem_cons_of_mem c hd))
  have hquote : '\x22' ∉ attr.value.toList := fun hmem => absurd (hattr.2 _ hmem) (by decide)
  have hvalue : ∀ d ∈ attr.value.toList, decide (d ≠ '\x22') = true := by
    intro d hd
    rw [decide_eq_true_iff]
    rintro rfl
    exact hquote hd
  have hwrite : attr.write ++ rest =
      ' ' :: c :: (name ++ '=' :: '\x22' :: (attr.value.toList ++ '\x22' :: rest)) := by
    simp [Attribute.write, hname]
  have hstart : (attr.write ++ rest).dropWhile isSpace =
      c :: (name ++ '=' :: '\x22' :: (attr.value.toList ++ '\x22' :: rest)) := by
    rw [hwrite, List.dropWhile_cons_of_pos (by decide), List.dropWhile_cons_of_neg]
    rw [isSpace_of_isAlpha (hletters c List.mem_cons_self)]
    decide
  have hafter : afterName (name ++ '=' :: '\x22' :: (attr.value.toList ++ '\x22' :: rest)) =
      '=' :: '\x22' :: (attr.value.toList ++ '\x22' :: rest) := by
    rw [afterName, dropWhile_append_cons hchars (by decide), List.dropWhile_cons_of_neg (by decide)]
  have hfound : String.ofList (c :: (name ++ '=' :: '\x22' :: (attr.value.toList ++ '\x22' :: rest)).takeWhile
      isNameChar) = attr.name := by
    rw [takeWhile_append_cons hchars (by decide), ← hname, String.ofList_toList]
  rw [readAttributes]
  split
  · next hnil =>
    rw [hstart] at hnil
    cases hnil
  · next d text hcons =>
    rw [hstart] at hcons
    cases hcons
    simp only [hfound]
    split
    · next hnil =>
      rw [hafter] at hnil
      cases hnil
    · next d more hmore =>
      rw [hafter] at hmore
      cases hmore
      rw [if_pos rfl, if_neg hseen]
      split
      · next hnil =>
        rw [List.dropWhile_cons_of_neg (by decide)] at hnil
        cases hnil
      · next q body hbody =>
        rw [List.dropWhile_cons_of_neg (by decide)] at hbody
        cases hbody
        simp only [show Quote.ofChar? '\x22' = some .double from rfl]
        split
        · next hnone =>
          rw [after?_quote hquote] at hnone
          cases hnone
        · next text hrest =>
          rw [after?_quote hquote] at hrest
          cases hrest
          rw [takeWhile_append_cons hvalue (by decide), String.ofList_toList]

theorem readAttributes_write {seen : List String} {attributes : List Attribute}
    (hplain : ∀ attr ∈ attributes, attr.Plain) (hseen : ∀ attr ∈ attributes, attr.name ∉ seen)
    (hnodup : (attributes.map (·.name)).Nodup) :
    readAttributes seen (attributes.flatMap Attribute.write) = attributes := by
  induction attributes generalizing seen with
  | nil => rw [readAttributes]; rfl
  | cons attr attributes ih =>
    rw [List.map_cons, List.nodup_cons] at hnodup
    rw [List.flatMap_cons, readAttributes_write_append (hplain attr List.mem_cons_self)
      (hseen attr List.mem_cons_self)]
    congr 1
    refine ih (fun other hother => hplain other (List.mem_cons_of_mem attr hother)) ?_ hnodup.2
    intro other hother hmem
    rw [List.mem_cons] at hmem
    rcases hmem with heq | hmem
    · exact hnodup.1 (heq ▸ List.mem_map_of_mem hother)
    · exact hseen other (List.mem_cons_of_mem attr hother) hmem

theorem ofText_write {tag : Tag} (h : tag.Plain) : Tag.ofText tag.write = tag := by
  have hname : ∀ c ∈ tag.name.toList, (!isSpace c) = true := by
    intro c hc
    rw [isSpace_of_isAlpha (h.name.2 c hc)]
    rfl
  have hread : readAttributes [] (tag.attributes.flatMap Attribute.write) = tag.attributes :=
    readAttributes_write h.attributes (fun _ _ => List.not_mem_nil) h.nodup
  have hcut : tag.write.takeWhile (!isSpace ·) = tag.name.toList ∧
      tag.write.dropWhile (!isSpace ·) = tag.attributes.flatMap Attribute.write := by
    rw [Tag.write]
    cases tag.attributes with
    | nil =>
      rw [List.flatMap_nil, List.append_nil]
      exact ⟨List.takeWhile_eq_self_iff.mpr hname, List.dropWhile_eq_nil_iff.mpr hname⟩
    | cons attr attributes =>
      exact ⟨takeWhile_append_cons hname (by decide) _, dropWhile_append_cons hname (by decide) _⟩
  rw [Tag.ofText, hcut.1, hcut.2, hread, String.ofList_toList]

/-! ### A tag is read back -/

theorem exists_write_eq_cons {tag : Tag} (h : tag.Plain) :
    ∃ c text, tag.write = c :: text ∧ c.isAlpha = true := by
  obtain ⟨c, name, hname⟩ := List.exists_cons_of_ne_nil h.name.1
  refine ⟨c, name ++ tag.attributes.flatMap Attribute.write, ?_, ?_⟩
  · rw [Tag.write, hname, List.cons_append]
  · exact h.name.2 c (hname ▸ List.mem_cons_self)

theorem getLast?_write {tag : Tag} (h : tag.Plain) : tag.write.getLast? ≠ some '/' := by
  rw [Tag.write]
  cases hattributes : tag.attributes.getLast? with
  | none =>
    rw [List.getLast?_eq_none_iff.mp hattributes, List.flatMap_nil, List.append_nil]
    intro hlast
    exact absurd (h.name.2 _ (List.mem_of_getLast? hlast)) (by decide)
  | some attr =>
    obtain ⟨others, hsplit⟩ := List.getLast?_eq_some_iff.mp hattributes
    rw [hsplit, List.flatMap_append, List.flatMap_singleton, Attribute.write, ← List.append_assoc,
      ← List.append_assoc, List.getLast?_append]
    simp

theorem tagEvent_write {tag : Tag} (h : tag.Plain) : tagEvent tag.write = .opening tag := by
  obtain ⟨c, text, hwrite, hc⟩ := exists_write_eq_cons h
  have hslash : c ≠ '/' := ne_of_isAlpha hc (by decide)
  unfold tagEvent
  split
  · next name hname =>
    rw [hwrite] at hname
    exact absurd (List.cons.inj hname).1 hslash
  · rw [if_neg (getLast?_write h), ofText_write h]

theorem tagEvent_write_slash {tag : Tag} (h : tag.Plain) : tagEvent (tag.write ++ ['/']) = .void tag := by
  obtain ⟨c, text, hwrite, hc⟩ := exists_write_eq_cons h
  have hslash : c ≠ '/' := ne_of_isAlpha hc (by decide)
  unfold tagEvent
  split
  · next name hname =>
    rw [hwrite] at hname
    exact absurd (List.cons.inj hname).1 hslash
  · rw [if_pos (by simp), List.dropLast_concat, ofText_write h]

theorem endTagName_of_isWord {name : String} (h : IsWord name) : endTagName name.toList = name := by
  have hkeep : name.toList.reverse.dropWhile isSpace = name.toList.reverse := by
    rw [List.dropWhile_eq_self_iff]
    intro hlength
    rw [isSpace_of_isAlpha (h.2 _ (List.mem_reverse.mp (List.getElem_mem hlength)))]
    decide
  rw [endTagName, hkeep, List.reverse_reverse, if_neg h.1, String.ofList_toList]

/-! ### The events of what is written -/

theorem nextMarkup_of_closeTag {c : Char} (hmark : c ≠ '!') (hquestion : c ≠ '?')
    {text inside rest : List Char} (h : closeTag none (c :: text) = .ok (inside, rest)) :
    nextMarkup (c :: text) = .ok (tagEvent inside, rest) := by
  unfold nextMarkup
  split
  · next hnil => cases hnil
  · next hcons => exact absurd (List.cons.inj hcons).1 hmark
  · next hcons => exact absurd (List.cons.inj hcons).1 hquestion
  · rw [h]
    rfl

theorem nextMarkup_write {tag : Tag} (htag : tag.Plain) {text inside rest : List Char}
    (h : closeTag none text = .ok (inside, rest)) :
    nextMarkup (tag.write ++ text) = .ok (tagEvent (tag.write ++ inside), rest) := by
  obtain ⟨c, more, hwrite, hc⟩ := exists_write_eq_cons htag
  have hclose := closeTag_write htag h
  rw [hwrite, List.cons_append] at hclose ⊢
  exact nextMarkup_of_closeTag (ne_of_isAlpha hc (by decide)) (ne_of_isAlpha hc (by decide)) hclose

theorem nextEvent_opening {tag : Tag} (h : tag.Plain) (rest : List Char) :
    nextEvent '<' (tag.write ++ '>' :: rest) = .ok (.opening tag, rest) := by
  have hclose : closeTag none ('>' :: rest) = .ok ([], rest) := rfl
  rw [nextEvent, if_pos rfl, nextMarkup_write h hclose, List.append_nil, tagEvent_write h]

theorem nextEvent_void {tag : Tag} (h : tag.Plain) (rest : List Char) :
    nextEvent '<' (tag.write ++ '/' :: '>' :: rest) = .ok (.void tag, rest) := by
  have hclose : closeTag none ('/' :: '>' :: rest) = .ok (['/'], rest) := rfl
  rw [nextEvent, if_pos rfl, nextMarkup_write h hclose, tagEvent_write_slash h]

theorem nextEvent_closing {name : String} (h : IsWord name) (rest : List Char) :
    nextEvent '<' ('/' :: name.toList ++ '>' :: rest) = .ok (.closing name, rest) := by
  have hplain : ∀ c ∈ '/' :: name.toList, isPlain c = true := by
    intro c hc
    rcases List.mem_cons.mp hc with rfl | hc
    · decide
    · exact isPlain_of_isAlpha (h.2 c hc)
  have hclose : closeTag none ('>' :: rest) = .ok ([], rest) := rfl
  have hmarkup : nextMarkup ('/' :: name.toList ++ '>' :: rest) =
      .ok (tagEvent ('/' :: name.toList ++ []), rest) :=
    nextMarkup_of_closeTag (by decide) (by decide) (closeTag_append hplain hclose)
  rw [nextEvent, if_pos rfl, hmarkup, List.append_nil, tagEvent, endTagName_of_isWord h]

theorem nextEvent_text {c : Char} {characters rest : List Char}
    (hplain : ∀ d ∈ c :: characters, isPlain d = true) (hrest : ∀ d ∈ rest.head?, d = '<') :
    nextEvent c (characters ++ rest) = .ok (.text (c :: characters), rest) := by
  have hc := isTextChar_of_isPlain (hplain c List.mem_cons_self)
  have hchars : ∀ d ∈ characters, isTextChar d = true :=
    fun d hd => isTextChar_of_isPlain (hplain d (List.mem_cons_of_mem c hd))
  simp only [isTextChar, Bool.and_eq_true, bne_iff_ne] at hc
  rw [nextEvent, if_neg hc.1, if_neg hc.2]
  cases rest with
  | nil =>
    rw [List.append_nil, List.takeWhile_eq_self_iff.mpr hchars, List.dropWhile_eq_nil_iff.mpr hchars]
  | cons d rest =>
    obtain rfl := hrest d rfl
    rw [takeWhile_append_cons hchars (by decide), dropWhile_append_cons hchars (by decide)]

theorem scan_cons {c : Char} {text rest : List Char} {event : Event}
    (h : nextEvent c text = .ok (event, rest)) : scan (c :: text) = .cons event (scan rest) := by
  rw [scan]
  split
  · next hfault =>
    rw [h] at hfault
    cases hfault
  · next hevent =>
    rw [h] at hevent
    cases hevent
    rfl

theorem head?_write_append {content : Content} (h : content.Plain) (htext : content.isText = false)
    {rest : List Char} (hrest : ∀ c ∈ rest.head?, c = '<') :
    ∀ c ∈ (content.write ++ rest).head?, c = '<' := by
  cases content with
  | done => exact hrest
  | failed => exact h.elim
  | text => cases htext
  | void tag next => simp [Content.write]
  | element tag body next => simp [Content.write]

theorem scan_write_append {content : Content} (h : content.Plain) {rest : List Char}
    (hrest : ∀ c ∈ rest.head?, c = '<') :
    scan (content.write ++ rest) = content.events (scan rest) := by
  induction content generalizing rest with
  | done => rfl
  | failed => exact h.elim
  | text characters next ih =>
    obtain ⟨hne, hplain, htext, hnext⟩ := h
    obtain ⟨c, more, rfl⟩ := List.exists_cons_of_ne_nil hne
    rw [Content.write, List.append_assoc, List.cons_append,
      scan_cons (nextEvent_text hplain (head?_write_append hnext htext hrest)), ih hnext hrest,
      Content.events]
  | void tag next ih =>
    obtain ⟨htag, hnext⟩ := h
    rw [Content.write, List.cons_append, List.cons_append, List.append_assoc, List.cons_append,
      List.cons_append, scan_cons (nextEvent_void htag _), ih hnext hrest, Content.events]
  | element tag body next ihbody ihnext =>
    obtain ⟨htag, hbody, hnext⟩ := h
    have hend : scan ('<' :: ('/' :: tag.name.toList ++ '>' :: (next.write ++ rest))) =
        .cons (.closing tag.name) (next.events (scan rest)) := by
      rw [scan_cons (nextEvent_closing htag.name _), ihnext hnext hrest]
    have hwrite : (Content.element tag body next).write ++ rest =
        '<' :: (tag.write ++ '>' :: (body.write ++
          '<' :: ('/' :: tag.name.toList ++ '>' :: (next.write ++ rest)))) := by
      simp [Content.write]
    rw [hwrite, scan_cons (nextEvent_opening htag _), ihbody hbody (by simp), hend, Content.events]

theorem scan_write {content : Content} (h : content.Plain) : scan content.write = content.events .ended := by
  have hscan : scan (content.write ++ []) = content.events (scan []) :=
    scan_write_append h (by simp)
  rwa [List.append_nil, scan] at hscan

/-! ### The end tags match, and the events fold back -/

theorem Content.events_append (content : Content) (first second : Events) :
    content.events (first.append second) = (content.events first).append second := by
  induction content generalizing first second with
  | done => rfl
  | failed fault => rfl
  | text characters next ih => rw [events, events, ih, Events.append]
  | void tag next ih => rw [events, events, ih, Events.append]
  | element tag body next ihbody ihnext =>
    rw [events, events, ihnext, ← Events.append, ihbody, Events.append]

theorem nested_events {content : Content} (h : content.Plain) : Nested (content.events .ended) content := by
  induction content with
  | done => exact .ended
  | failed => exact h.elim
  | text characters _ ih => exact .text characters (ih h.2.2.2)
  | void tag _ ih => exact .void tag (ih h.2)
  | element tag body next ihbody ihnext =>
    have hevents : body.events (.cons (.closing tag.name) (next.events .ended)) =
        (body.events .ended).append (.cons (.closing tag.name) (next.events .ended)) :=
      body.events_append .ended _
    rw [Content.events, hevents]
    exact .element tag (ihbody h.2.1) (ihnext h.2.2)

theorem nested_write {content : Content} (h : content.Plain) : Nested (scan content.write) content :=
  scan_write h ▸ nested_events h

theorem ofText_ofList {text : List Char} (h : text.head? ≠ some '\uFEFF') :
    Events.ofText (String.ofList text) = (scan text).nest [] := by
  rw [Events.ofText, String.toList_ofList]
  split
  · exact absurd rfl h
  · rfl

theorem ofText_write_events {content : Content} (h : content.Plain) (htext : content.isText = false) :
    Events.ofText (String.ofList content.write) = content.events .ended := by
  have hhead : ∀ c ∈ (content.write ++ []).head?, c = '<' :=
    head?_write_append h htext (by simp)
  rw [List.append_nil] at hhead
  have hmark : content.write.head? ≠ some '\uFEFF' := fun hmark => absurd (hhead _ hmark) (by decide)
  rw [ofText_ofList hmark, scan_write h, (nested_events h).nest_eq]

/-- Plain content that is written and read is the same content. It may not begin with a text, whose
first character could be a byte order mark. -/
theorem ofText_write_content {content : Content} (h : content.Plain) (htext : content.isText = false) :
    Content.ofText (String.ofList content.write) = content := by
  rw [Content.ofText, ofText_write_events h htext]
  exact (List.cons.inj (nested_events h).contents_eq).1

end RegistryBindings.Markup
