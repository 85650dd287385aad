import RegistryBindings.Proofs.Markup.Elements

/-!
# Where a text may be parted

A construct of markup ends with its own mark, so what is read of it does not depend on what follows. A text
whose reading has no fault therefore ends outside markup and references, and the events of a longer text are
its events and then those of the rest. Only characters outside markup go on over the seam: the two texts there
are one text of the whole.
-/

namespace RegistryBindings.Markup

open Text

variable {mark text rest : List Char}

/-! ### Marks in a longer text -/

theorem strip?_append_of_strip? (h : strip? mark text = some rest) (more : List Char) :
    strip? mark (text ++ more) = some (rest ++ more) := by
  rw [strip?_eq_some_iff] at h ⊢
  rw [h, List.append_assoc]

/-- A text that does not begin with the mark, and is no beginning of it, has no mark however it goes on. -/
theorem strip?_append_eq_none (h : strip? mark text = none) (hbegins : ¬ text <+: mark) (more : List Char) :
    strip? mark (text ++ more) = none := by
  refine Option.eq_none_iff_forall_ne_some.mpr fun rest hrest => ?_
  have heq := eq_append_of_strip? hrest
  rcases List.append_eq_append_iff.mp heq with ⟨between, hmark, -⟩ | ⟨between, htext, -⟩
  · exact hbegins ⟨between, hmark.symm⟩
  · rw [htext, strip?_append] at h
    cases h

theorem strip?_append_of_mem {c : Char} (hc : c ∈ text) (hmark : c ∉ mark) (more : List Char) :
    strip? mark (text ++ more) = (strip? mark text).map (· ++ more) := by
  cases h : strip? mark text with
  | some rest => exact strip?_append_of_strip? h more
  | none => exact strip?_append_eq_none h (fun hbegins => hmark (hbegins.subset hc)) more

theorem after?_append (h : after? mark text = some rest) (more : List Char) :
    after? mark (text ++ more) = some (rest ++ more) := by
  fun_induction after? mark text with
  | case1 =>
    cases mark with
    | nil =>
      cases h
      cases more <;> rfl
    | cons m mark => cases h
  | case2 c text found hfound =>
    cases h
    rw [List.cons_append, after?, ← List.cons_append, strip?_append_of_strip? hfound]
  | case3 c text hnone ih =>
    have hbegins : ¬ (c :: text) <+: mark := by
      intro hbegins
      have hlength := hbegins.length_le
      have hfound := length_le_of_after? h
      rw [List.length_cons] at hlength
      omega
    rw [List.cons_append, after?, ← List.cons_append, strip?_append_eq_none hnone hbegins]
    exact ih h

theorem mem_of_after? (h : after? mark text = some rest) {c : Char} (hc : c ∈ mark) : c ∈ text := by
  fun_induction after? mark text with
  | case1 => exact eq_append_of_strip? h ▸ List.mem_append_left rest hc
  | case2 d text found hfound => exact eq_append_of_strip? hfound ▸ List.mem_append_left found hc
  | case3 d text _ ih => exact List.mem_cons_of_mem d (ih h)

theorem mem_of_strip? (h : strip? mark text = some rest) {c : Char} (hc : c ∈ rest) : c ∈ text :=
  eq_append_of_strip? h ▸ List.mem_append_right mark hc

/-! ### Constructs in a longer text -/

theorem closeTag_ok_append {quote? : Option Quote} {inside : List Char}
    (h : closeTag quote? text = .ok (inside, rest)) (more : List Char) :
    closeTag quote? (text ++ more) = .ok (inside, rest ++ more) := by
  induction text generalizing quote? inside with
  | nil => cases quote? <;> cases h
  | cons c text ih =>
    unfold closeTag at h
    rw [List.cons_append]
    unfold closeTag
    split at h
    · split at h
      · next hclosing =>
        cases h
        rw [if_pos hclosing]
      · next hclosing =>
        obtain ⟨found, hread, hfound⟩ := eq_ok_of_map_eq_ok h
        cases hfound
        rw [if_neg hclosing, ih hread]
        rfl
    · obtain ⟨found, hread, hfound⟩ := eq_ok_of_map_eq_ok h
      cases hfound
      rw [ih hread]
      rfl

theorem mem_of_closeTag {quote? : Option Quote} {inside : List Char}
    (h : closeTag quote? text = .ok (inside, rest)) : '>' ∈ text := by
  induction text generalizing quote? inside with
  | nil => cases quote? <;> cases h
  | cons c text ih =>
    unfold closeTag at h
    split at h
    · split at h
      · next hclosing => exact hclosing ▸ List.mem_cons_self
      · obtain ⟨found, hread, hfound⟩ := eq_ok_of_map_eq_ok h
        cases hfound
        exact List.mem_cons_of_mem c (ih hread)
    · obtain ⟨found, hread, hfound⟩ := eq_ok_of_map_eq_ok h
      cases hfound
      exact List.mem_cons_of_mem c (ih hread)

theorem mem_of_afterSubsetMarkup? (h : afterSubsetMarkup? text = some rest) : '>' ∈ text := by
  rw [afterSubsetMarkup?] at h
  split at h
  · next hmark => exact mem_of_strip? hmark (mem_of_after? h (by decide))
  · split at h
    · next hmark => exact mem_of_strip? hmark (mem_of_after? h (by decide))
    · split at h
      · cases hread : closeTag none text with
        | error fault => rw [hread] at h; cases h
        | ok found => exact mem_of_closeTag hread
      · exact mem_of_after? h (by decide)

theorem afterSubsetMarkup?_append (h : afterSubsetMarkup? text = some rest) (more : List Char) :
    afterSubsetMarkup? (text ++ more) = some (rest ++ more) := by
  -- The closing bracket is in the text, so the text is long enough to show what markup it begins with.
  have hmem := mem_of_afterSubsetMarkup? h
  have hany : (["!ENTITY", "!ATTLIST", "!NOTATION"].any fun name => (strip? name.toList (text ++ more)).isSome) =
      ["!ENTITY", "!ATTLIST", "!NOTATION"].any fun name => (strip? name.toList text).isSome := by
    have hname : ∀ name ∈ ["!ENTITY", "!ATTLIST", "!NOTATION"], '>' ∉ name.toList := by decide
    rw [Bool.eq_iff_iff, List.any_eq_true, List.any_eq_true]
    refine exists_congr fun name => and_congr_right fun hmember => ?_
    rw [strip?_append_of_mem hmem (hname name hmember), Option.isSome_map]
  rw [afterSubsetMarkup?] at h ⊢
  rw [strip?_append_of_mem hmem (by decide), strip?_append_of_mem hmem (by decide), hany]
  cases hcomment : strip? "!--".toList text with
  | some comment =>
    rw [hcomment] at h
    exact after?_append h more
  | none =>
    cases hinstruction : strip? "?".toList text with
    | some instruction =>
      rw [hcomment, hinstruction] at h
      exact after?_append h more
    | none =>
      simp only [hcomment, hinstruction, Option.map_none] at h ⊢
      split at h
      · next hdeclaration =>
        rw [if_pos hdeclaration]
        cases hread : closeTag none text with
        | error fault => rw [hread] at h; cases h
        | ok found =>
          rw [hread] at h
          cases h
          rw [closeTag_ok_append hread]
          rfl
      · next hdeclaration =>
        rw [if_neg hdeclaration]
        exact after?_append h more

theorem afterSubset?_append (h : afterSubset? text = some rest) (more : List Char) :
    afterSubset? (text ++ more) = some (rest ++ more) := by
  fun_induction afterSubset? text with
  | case1 => cases h
  | case2 text =>
    rw [List.cons_append, afterSubset?, if_pos rfl]
    exact after?_append h more
  | case3 => cases h
  | case4 text next hnext hlt hclosing ih =>
    rw [List.cons_append, afterSubset?, if_neg hclosing, if_pos rfl]
    split
    · next hnone =>
      rw [afterSubsetMarkup?_append hnext] at hnone
      cases hnone
    · next found hfound =>
      rw [afterSubsetMarkup?_append hnext] at hfound
      cases hfound
      exact ih h
  | case5 c text hclosing hopening ih =>
    rw [List.cons_append, afterSubset?, if_neg hclosing, if_neg hopening]
    exact ih h

theorem afterDoctype?_append {quote? : Option Quote} (h : afterDoctype? quote? text = some rest)
    (more : List Char) : afterDoctype? quote? (text ++ more) = some (rest ++ more) := by
  fun_induction afterDoctype? quote? text with
  | case1 => cases h
  | case2 c text quote ih =>
    rw [List.cons_append, afterDoctype?]
    exact ih h
  | case3 text =>
    cases h
    rw [List.cons_append, afterDoctype?, if_pos rfl]
  | case4 text hclosing =>
    rw [List.cons_append, afterDoctype?, if_neg hclosing, if_pos rfl]
    exact afterSubset?_append h more
  | case5 c text hclosing hopening ih =>
    rw [List.cons_append, afterDoctype?, if_neg hclosing, if_neg hopening]
    exact ih h

theorem head?_dropWhile_append {keep : Char → Bool} {c : Char} (hc : c ∈ text) (hkeep : keep c = false)
    (more : List Char) : ((text ++ more).dropWhile keep).head? = (text.dropWhile keep).head? := by
  have hne : text.dropWhile keep ≠ [] := fun hnil => by
    rw [List.dropWhile_eq_nil_iff.mp hnil c hc] at hkeep
    cases hkeep
  obtain ⟨d, rest, hrest⟩ := List.exists_cons_of_ne_nil hne
  rw [List.dropWhile_append, hrest]
  rfl

theorem mem_of_afterSubset? (h : afterSubset? text = some rest) : '>' ∈ text := by
  fun_induction afterSubset? text with
  | case1 => cases h
  | case2 text => exact List.mem_cons_of_mem _ (mem_of_after? h (by decide))
  | case3 => cases h
  | case4 text next hnext => exact List.mem_cons_of_mem _ (mem_of_afterSubsetMarkup? hnext)
  | case5 c text _ _ ih => exact List.mem_cons_of_mem c (ih h)

theorem mem_of_afterDoctype? {quote? : Option Quote} (h : afterDoctype? quote? text = some rest) :
    '>' ∈ text := by
  fun_induction afterDoctype? quote? text with
  | case1 => cases h
  | case2 c text quote ih => exact List.mem_cons_of_mem c (ih h)
  | case3 text => exact List.mem_cons_self
  | case4 text => exact List.mem_cons_of_mem _ (mem_of_afterSubset? h)
  | case5 c text _ _ ih => exact List.mem_cons_of_mem c (ih h)

theorem skipDoctype_append (h : skipDoctype text = .ok rest) (more : List Char) :
    skipDoctype (text ++ more) = .ok (rest ++ more) := by
  unfold skipDoctype at h
  split at h
  · next hkeyword =>
    split at h
    · cases h
    · next found hfound =>
      have hlength : 7 ≤ text.length := by
        have htake : ((text.take 7).map Char.toLower).length = 7 := congrArg List.length hkeyword
        rw [List.length_map, List.length_take] at htake
        omega
      split at h
      · cases h
      · next hnamed =>
        cases h
        rw [skipDoctype, List.take_append_of_le_length hlength, if_pos hkeyword,
          List.drop_append_of_le_length hlength, afterDoctype?_append hfound,
          head?_dropWhile_append (mem_of_afterDoctype? hfound) (by decide)]
        exact if_neg hnamed
  · cases h

theorem skipThrough_append {fault : Fault} (h : skipThrough mark fault text = .ok rest) (more : List Char) :
    skipThrough mark fault (text ++ more) = .ok (rest ++ more) := by
  rw [skipThrough] at h ⊢
  split at h
  · next hrest =>
    cases h
    rw [after?_append hrest]
  · cases h

theorem skipDeclaration_append (h : skipDeclaration text = .ok rest) (more : List Char) :
    skipDeclaration (text ++ more) = .ok (rest ++ more) := by
  unfold skipDeclaration at h
  split at h
  · next text =>
    split at h
    · next body hbody =>
      simp only [List.cons_append, skipDeclaration, strip?_append_of_strip? hbody]
      exact skipThrough_append h more
    · cases h
  · next text =>
    split at h
    · next body hbody =>
      simp only [List.cons_append, skipDeclaration, strip?_append_of_strip? hbody]
      exact skipThrough_append h more
    · cases h
  · next c text hhyphen hbracket =>
    split at h
    · next hkeyword =>
      have hdoctype := skipDoctype_append h more
      rw [List.cons_append] at hdoctype ⊢
      unfold skipDeclaration
      split
      · next heq => exact absurd (List.cons.inj heq).1 hhyphen
      · next heq => exact absurd (List.cons.inj heq).1 hbracket
      · next heq =>
        cases heq
        rw [if_pos hkeyword, hdoctype]
      · next heq => cases heq
    · cases h
  · cases h

theorem skipInstruction_append (h : skipInstruction text = .ok rest) (more : List Char) :
    skipInstruction (text ++ more) = .ok (rest ++ more) := by
  unfold skipInstruction at h
  split at h
  · cases h
  · next hhead =>
    cases text with
    | nil => cases h
    | cons c text =>
      rw [skipThrough] at h
      split at h
      · next hrest =>
        cases h
        have hclosing : ¬ (c :: text ++ more).head? = some '>' := hhead
        rw [skipInstruction, if_neg hclosing, skipThrough, after?_append hrest]
      · cases h

theorem nextMarkup_append {event : Event} (h : nextMarkup text = .ok (event, rest)) (more : List Char) :
    nextMarkup (text ++ more) = .ok (event, rest ++ more) := by
  unfold nextMarkup at h
  split at h
  · cases h
  · next text =>
    obtain ⟨found, hread, hfound⟩ := eq_ok_of_map_eq_ok h
    cases hfound
    simp only [List.cons_append, nextMarkup, skipDeclaration_append hread]
    rfl
  · next text =>
    obtain ⟨found, hread, hfound⟩ := eq_ok_of_map_eq_ok h
    cases hfound
    simp only [List.cons_append, nextMarkup, skipInstruction_append hread]
    rfl
  · next hnil hmark hquestion =>
    obtain ⟨⟨inside, found⟩, hread, hfound⟩ := eq_ok_of_map_eq_ok h
    cases hfound
    obtain ⟨c, text, rfl⟩ := List.exists_cons_of_ne_nil hnil
    have hmarkup : c ≠ '!' := fun heq => hmark text (heq ▸ rfl)
    have hinstruction : c ≠ '?' := fun heq => hquestion text (heq ▸ rfl)
    exact nextMarkup_of_closeTag hmarkup hinstruction (closeTag_ok_append hread more)

theorem skipReference_append (h : skipReference text = .ok rest) (more : List Char) :
    skipReference (text ++ more) = .ok (rest ++ more) := by
  unfold skipReference at h ⊢
  split at h
  · next found hfound =>
    cases h
    rw [List.dropWhile_append, hfound]
    rfl
  · cases h

/-! ### Events on both sides of the seam -/

/-- A text as it is read at the end of a shorter one may go on in the longer one. All other events are the
same in both. -/
theorem nextEvent_append {c : Char} {event : Event} (h : nextEvent c text = .ok (event, rest))
    (more : List Char) :
    nextEvent c (text ++ more) = .ok (event, rest ++ more) ∨
      event = .text (c :: text) ∧ rest = [] ∧ ∀ d ∈ c :: text, isTextChar d = true := by
  unfold nextEvent at h ⊢
  split at h
  · next hc =>
    rw [if_pos hc]
    exact .inl (nextMarkup_append h more)
  · next hc =>
    rw [if_neg hc]
    split at h
    · next hreference =>
      obtain ⟨found, hread, hfound⟩ := eq_ok_of_map_eq_ok h
      cases hfound
      rw [if_pos hreference, skipReference_append hread]
      exact .inl rfl
    · next hreference =>
      cases h
      rw [if_neg hreference]
      by_cases hall : ∀ d ∈ text, isTextChar d = true
      · rw [List.takeWhile_eq_self_iff.mpr hall, List.dropWhile_eq_nil_iff.mpr hall]
        refine .inr ⟨rfl, rfl, List.forall_mem_cons.mpr ⟨?_, hall⟩⟩
        simp [isTextChar, hc, hreference]
      · have htake : ¬ (text.takeWhile isTextChar).length = text.length := fun hlength =>
          hall (List.takeWhile_eq_self_iff.mp ((List.takeWhile_prefix isTextChar).eq_of_length hlength))
        have hdrop : ¬ (text.dropWhile isTextChar).isEmpty = true := fun hempty =>
          hall (List.dropWhile_eq_nil_iff.mp (List.isEmpty_iff.mp hempty))
        rw [List.takeWhile_append, if_neg htake, List.dropWhile_append, if_neg hdrop]
        exact .inl rfl

/-- Characters outside markup are put in front of the text that follows them, if one does. -/
theorem merged_scan_text_append {characters : List Char} (h : ∀ c ∈ characters, isTextChar c = true)
    (more : List Char) : (scan (characters ++ more)).merged = (scan more).merged.withText characters := by
  have hscan {c : Char} {text : List Char} (hc : isTextChar c = true) :
      (scan (c :: text)).merged =
        (scan (text.dropWhile isTextChar)).merged.withText (c :: text.takeWhile isTextChar) := by
    simp only [isTextChar, Bool.and_eq_true, bne_iff_ne] at hc
    have hevent : nextEvent c text =
        .ok (.text (c :: text.takeWhile isTextChar), text.dropWhile isTextChar) := by
      rw [nextEvent, if_neg hc.1, if_neg hc.2]
    rw [scan_cons hevent, Events.merged]
  have hmore : (scan more).merged =
      (scan (more.dropWhile isTextChar)).merged.withText (more.takeWhile isTextChar) := by
    cases more with
    | nil => rfl
    | cons d more =>
      by_cases hd : isTextChar d = true
      · rw [hscan hd, List.takeWhile_cons_of_pos hd, List.dropWhile_cons_of_pos hd]
      · rw [List.takeWhile_cons_of_neg hd, List.dropWhile_cons_of_neg hd]
        rfl
  cases characters with
  | nil => rfl
  | cons c characters =>
    obtain ⟨hc, hcharacters⟩ := List.forall_mem_cons.mp h
    rw [List.cons_append, hscan hc, List.takeWhile_append_of_pos hcharacters,
      List.dropWhile_append_of_pos hcharacters, ← List.cons_append, Events.withText_append, ← hmore]

/-- The events of a text that ends outside markup and references, and then those of what follows it. -/
theorem merged_scan_append {before : List Char} (h : (scan before).fault? = none) (more : List Char) :
    (scan (before ++ more)).merged = ((scan before).append (scan more)).merged := by
  fun_induction scan before with
  | case1 => rfl
  | case2 c text fault hnext => cases h
  | case3 c text event rest hnext hlt ih =>
    rcases nextEvent_append hnext more with happend | ⟨rfl, rfl, htext⟩
    · rw [List.cons_append, scan_cons happend]
      exact Events.merged_cons_congr (ih h) event
    · rw [merged_scan_text_append htext, scan]
      rfl

/-- The text ends outside markup and references. Where reading stops before the end, nothing that is written
after it matters. -/
def EndsOutside (before : List Char) : Prop :=
  (scan before).fault? = none ∨ ∀ more, scan (before ++ more) = scan before

/-! ### Comments and instructions -/

/-- The mark is found where it is written, if it does not occur in what stands before it together with the
mark's own beginning. -/
theorem after?_append_mark {body : List Char} (hmark : mark ≠ []) (h : ¬ mark <:+: body ++ mark.dropLast)
    (more : List Char) : after? mark (body ++ (mark ++ more)) = some more := by
  induction body with
  | nil =>
    obtain ⟨m, marks, rfl⟩ := List.exists_cons_of_ne_nil hmark
    rw [List.nil_append, List.cons_append, after?, ← List.cons_append, strip?_append]
  | cons c body ih =>
    have hnone : strip? mark (c :: (body ++ (mark ++ more))) = none := by
      refine Option.eq_none_iff_forall_ne_some.mpr fun rest hrest => h ?_
      have hlast : mark ++ more = mark.dropLast ++ (mark.getLast hmark :: more) := by
        rw [← List.singleton_append, ← List.append_assoc, List.dropLast_concat_getLast]
      have hwhole : mark <+: (c :: body ++ mark.dropLast) ++ (mark.getLast hmark :: more) := by
        rw [List.append_assoc, ← hlast, List.cons_append, eq_append_of_strip? hrest]
        exact List.prefix_append mark rest
      refine (List.prefix_of_prefix_length_le hwhole (List.prefix_append _ _) ?_).isInfix
      rw [List.length_append, List.length_dropLast, List.length_cons]
      omega
    rw [List.cons_append, after?, hnone]
    refine ih fun hinfix => h ?_
    rw [List.cons_append]
    exact hinfix.trans (List.suffix_cons c _).isInfix

/-- A comment or an instruction, from its opening bracket to the first mark that ends it. -/
inductive IsAside : List Char → Prop
  | comment (body : List Char) (hbody : ¬ "-->".toList <:+: body ++ ['-', '-']) :
    IsAside ('<' :: '!' :: '-' :: '-' :: (body ++ "-->".toList))
  | instruction (body : List Char) (hbody : ¬ "?>".toList <:+: body ++ ['?']) (hhead : body.head? ≠ some '>') :
    IsAside ('<' :: '?' :: (body ++ "?>".toList))

theorem scan_aside_append {markup : List Char} (h : IsAside markup) (more : List Char) :
    scan (markup ++ more) = .cons .aside (scan more) := by
  cases h with
  | comment body hbody =>
    have hmore : after? "-->".toList (body ++ ("-->".toList ++ more)) = some more :=
      after?_append_mark (by decide) hbody more
    have hevent : nextEvent '<' ('!' :: '-' :: '-' :: (body ++ ("-->".toList ++ more))) = .ok (.aside, more) := by
      change (skipThrough _ _ _).map _ = _
      rw [skipThrough, hmore]
      rfl
    rw [← scan_cons hevent]
    simp only [List.cons_append, List.append_assoc]
  | instruction body hbody hhead =>
    have hmore : after? "?>".toList (body ++ ("?>".toList ++ more)) = some more :=
      after?_append_mark (by decide) hbody more
    have hclosing : (body ++ ("?>".toList ++ more)).head? ≠ some '>' := by
      cases body with
      | nil => simp
      | cons c body => exact hhead
    have hevent : nextEvent '<' ('?' :: (body ++ ("?>".toList ++ more))) = .ok (.aside, more) := by
      change (skipInstruction _).map _ = _
      rw [skipInstruction, if_neg hclosing, skipThrough, hmore]
      rfl
    rw [← scan_cons hevent]
    simp only [List.cons_append, List.append_assoc]

end RegistryBindings.Markup
