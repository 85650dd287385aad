import RegistryBindings.Proofs.Registry.WellFormed
import RegistryBindings.Registry.Reading

/-!
# Which documents are accepted

A document without faults is read if it has a registry element and each of its sections is well formed.
A reader stops at the first of the document's problems, whatever it has collected by then, so for every
reader the error does not depend on the state it is carried through.
-/

namespace RegistryBindings.Registry

open Markup

/-! ### A reader stops at the first problem -/

def stoppedAt {α : Type} : Except ReadError α → Option ReadError
  | .ok _ => none
  | .error error => some error

theorem stoppedAt_bind {α β : Type} {first : Except ReadError α} {next : α → Except ReadError β}
    {problems more : List ReadError} (hfirst : stoppedAt first = problems.head?)
    (hnext : ∀ a, first = .ok a → stoppedAt (next a) = more.head?) :
    stoppedAt (first >>= next) = (problems ++ more).head? := by
  rw [List.head?_append, ← hfirst]
  cases first with
  | error error => rfl
  | ok a => exact (hnext a rfl).trans (Option.none_or).symm

theorem stoppedAt_bind_ok {α β : Type} {first : Except ReadError α} {f : α → β} :
    stoppedAt (first >>= fun a => .ok (f a)) = stoppedAt first := by
  cases first <;> rfl

theorem stoppedAt_requiredAttribute (tag : Tag) (name : String) :
    stoppedAt (requiredAttribute tag name) = (missing tag [name]).head? := by
  unfold requiredAttribute
  split
  · next value h => simp [missing, Tag.Has, h, stoppedAt]
  · next h => simp [missing, Tag.Has, h, stoppedAt]

theorem skip_eq_ok {content : Content} (h : content.fault? = none) : skip content = .ok () := by
  rw [skip, h]

section Visiting

variable {σ : Type}

theorem stoppedAt_visit {visitor : Visitor σ} {problems : Child → List ReadError}
    (hvoid : ∀ state tag, stoppedAt (visitor.void state tag) = (problems ⟨tag, none⟩).head?)
    (helement : ∀ state tag body, body.fault? = none →
      stoppedAt (visitor.element state tag body) = (problems ⟨tag, some body⟩).head?)
    {content : Content} (h : content.fault? = none) (state : σ) :
    stoppedAt (visitor.visit state content) = (content.children.flatMap problems).head? := by
  induction content generalizing state with
  | done => rfl
  | failed fault => cases h
  | text characters next ih => exact ih h (visitor.text state characters)
  | void tag next ih =>
    rw [Content.children, List.flatMap_cons]
    exact stoppedAt_bind (hvoid state tag) fun state _ => ih h state
  | element tag body next _ ih =>
    obtain ⟨hbody, hnext⟩ := Option.or_eq_none_iff.mp h
    rw [Content.children, List.flatMap_cons]
    exact stoppedAt_bind (helement state tag body hbody) fun state _ => ih hnext state

theorem stoppedAt_visit_eq_none {visitor : Visitor σ}
    (hvoid : ∀ state tag, stoppedAt (visitor.void state tag) = none)
    (helement : ∀ state tag body, body.fault? = none →
      stoppedAt (visitor.element state tag body) = none)
    {content : Content} (h : content.fault? = none) (state : σ) :
    stoppedAt (visitor.visit state content) = none := by
  have hstopped : stoppedAt (visitor.visit state content) =
      (content.children.flatMap fun _ => []).head? := stoppedAt_visit hvoid helement h state
  rw [hstopped, List.head?_eq_none_iff, List.flatMap_eq_nil_iff]
  exact fun _ _ => rfl

theorem stoppedAt_items {read : σ → Tag → Except ReadError σ} {problems : Child → List ReadError}
    (hread : ∀ state tag body?, stoppedAt (read state tag) = (problems ⟨tag, body?⟩).head?)
    {content : Content} (h : content.fault? = none) (state : σ) :
    stoppedAt ((Visitor.items read).visit state content) =
      (content.children.flatMap problems).head? := by
  refine stoppedAt_visit (fun state tag => hread state tag none) ?_ h state
  intro state tag body hbody
  have hskip : (Visitor.items read).element state tag body = (read state tag >>= fun state => .ok state) := by
    simp only [Visitor.items, skip_eq_ok hbody]
    rfl
  rw [hskip, stoppedAt_bind_ok, hread state tag (some body)]

theorem stoppedAt_sections {read : String → Option (σ → Tag → Content → Except ReadError σ)}
    {names : List String} {problems : Tag → Content → List ReadError}
    (hread : ∀ name ∈ names, ∃ visitElement, read name = some visitElement ∧
      ∀ state tag body, body.fault? = none →
        stoppedAt (visitElement state tag body) = (problems tag body).head?)
    (hskip : ∀ name, name ∉ names → read name = none)
    {content : Content} (h : content.fault? = none) (state : σ) :
    stoppedAt ((Visitor.sections read).visit state content) =
      (content.children.flatMap (openedProblems names problems)).head? := by
  refine stoppedAt_visit (fun state tag => rfl) ?_ h state
  intro state tag body hbody
  simp only [Visitor.sections, openedProblems]
  by_cases hname : tag.name ∈ names
  · obtain ⟨visitElement, helement, hstopped⟩ := hread tag.name hname
    rw [helement, if_pos hname]
    exact hstopped state tag body hbody
  · rw [hskip tag.name hname, if_neg hname, skip_eq_ok hbody]
    rfl

end Visiting

/-! ### The readers -/

theorem stoppedAt_readEnum (selection : Selection) (block tag : Tag) :
    stoppedAt (readEnum selection block tag) =
      (if ∀ api ∈ tag.value? "api", api ∈ selection.apis then missing tag ["name", "value"]
        else []).head? := by
  rw [readEnum]
  by_cases h : ∀ api ∈ tag.value? "api", api ∈ selection.apis
  · rw [if_pos (Selection.admitsApi_iff.mpr h), if_pos h, missing_cons]
    refine stoppedAt_bind (stoppedAt_requiredAttribute tag "name") fun name _ => ?_
    exact stoppedAt_bind_ok.trans (stoppedAt_requiredAttribute tag "value")
  · rw [if_neg fun hadmitted => h (Selection.admitsApi_iff.mp hadmitted), if_neg h]
    rfl

theorem stoppedAt_enums (selection : Selection) (block : Tag) {content : Content}
    (h : content.fault? = none) (declarations : Declarations) :
    stoppedAt ((enumVisitor selection block).visit declarations content) =
      (content.children.flatMap (enumProblems selection)).head? := by
  refine stoppedAt_items ?_ h declarations
  intro declarations tag body?
  simp only [enumProblems]
  by_cases hname : tag.name = "enum"
  · simp only [hname, if_true, true_and]
    exact stoppedAt_bind_ok.trans (stoppedAt_readEnum selection block tag)
  · simp only [hname, if_false, false_and]
    rfl

theorem stoppedAt_members {content : Content} (h : content.fault? = none) (members : List String) :
    stoppedAt (memberVisitor.visit members content) =
      (content.children.flatMap (tagProblems ["enum"])).head? := by
  refine stoppedAt_items ?_ h members
  intro members tag body?
  simp only [tagProblems, List.mem_singleton]
  by_cases hname : tag.name = "enum"
  · simp only [hname, if_true]
    exact stoppedAt_bind_ok.trans (stoppedAt_requiredAttribute tag "name")
  · simp only [hname, if_false]
    rfl

theorem stoppedAt_readListing (tag : Tag) {content : Content} (h : content.fault? = none) :
    stoppedAt (readListing tag content) = (listingProblems tag content).head? := by
  refine stoppedAt_bind (stoppedAt_requiredAttribute tag "name") fun name _ => ?_
  exact stoppedAt_bind_ok.trans (stoppedAt_members h [])

theorem stoppedAt_groups {content : Content} (h : content.fault? = none) (declarations : Declarations) :
    stoppedAt (listingVisitor.visit declarations content) =
      (content.children.flatMap (openedProblems ["group"] listingProblems)).head? := by
  refine stoppedAt_sections ?_ ?_ h declarations
  · intro name hname
    obtain rfl := List.mem_singleton.mp hname
    refine ⟨_, rfl, ?_⟩
    intro declarations tag body hbody
    exact stoppedAt_bind_ok.trans (stoppedAt_readListing tag hbody)
  · intro name hname
    split
    · exact absurd List.mem_cons_self hname
    · rfl

/-! Whether a declaration has its name, and a command its prototype, shows only at the end. -/

theorem exists_ok_of_bind {α β : Type} {first : Except ReadError α} {next : α → Except ReadError β}
    {b : β} (h : first >>= next = .ok b) : ∃ a, first = .ok a ∧ next a = .ok b := by
  cases first with
  | error error => cases h
  | ok a => exact ⟨a, rfl, h⟩

theorem seen_visit {σ : Type} {visitor : Visitor σ} (Seen : σ → Prop) {name : String}
    (htext : ∀ state text, Seen (visitor.text state text) ↔ Seen state)
    (hvoid : ∀ state tag, visitor.void state tag = .ok state)
    (helement : ∀ state tag body after, visitor.element state tag body = .ok after →
      (Seen after ↔ tag.name = name ∨ Seen state))
    {content : Content} {state final : σ} (h : visitor.visit state content = .ok final) :
    Seen final ↔ content.HasOpened name ∨ Seen state := by
  induction content generalizing state with
  | done =>
    cases h
    simp [Content.HasOpened, Content.children]
  | failed fault => cases h
  | text characters next ih => rw [ih h, htext]; rfl
  | void tag next ih =>
    obtain ⟨after, hafter, hvisit⟩ := exists_ok_of_bind h
    rw [hvoid] at hafter
    cases hafter
    rw [ih hvisit, Content.hasOpened_void]
  | element tag body next _ ih =>
    obtain ⟨after, hafter, hvisit⟩ := exists_ok_of_bind h
    rw [ih hvisit, helement state tag body after hafter, Content.hasOpened_element, or_left_comm, or_assoc]

theorem stoppedAt_text {content : Content} (h : content.fault? = none) (text : List Char) :
    stoppedAt (textVisitor.visit text content) = none := by
  refine stoppedAt_visit_eq_none (fun text tag => rfl) ?_ h text
  intro text tag body hbody
  simp only [textVisitor, skip_eq_ok hbody]
  rfl

theorem stoppedAt_declaration {content : Content} (h : content.fault? = none)
    (declaration : PartialDeclaration) :
    stoppedAt (declarationVisitor.visit declaration content) = none := by
  refine stoppedAt_visit_eq_none (fun declaration tag => rfl) ?_ h declaration
  intro declaration tag body hbody
  simp only [declarationVisitor]
  split
  · exact stoppedAt_bind_ok.trans (stoppedAt_text hbody [])
  · exact stoppedAt_bind_ok.trans (stoppedAt_text hbody [])
  · rw [skip_eq_ok hbody]
    rfl

theorem isSome_name?_visit {content : Content} {declaration final : PartialDeclaration}
    (h : declarationVisitor.visit declaration content = .ok final) :
    final.name?.isSome ↔ content.HasOpened "name" ∨ declaration.name?.isSome := by
  have hspelling (declaration : PartialDeclaration) (text : List Char) :
      (declaration.addSpelling text).name? = declaration.name? := by
    unfold PartialDeclaration.addSpelling
    split <;> rfl
  refine seen_visit (fun declaration : PartialDeclaration => declaration.name?.isSome)
    (fun declaration text => ?_) (fun declaration tag => rfl) ?_ h
  · change (declaration.addSpelling text).name?.isSome ↔ _
    rw [hspelling]
  · intro declaration tag body after hafter
    simp only [declarationVisitor] at hafter
    split at hafter
    · next hname =>
      obtain ⟨text, -, hdone⟩ := exists_ok_of_bind hafter
      cases hdone
      rw [hspelling]
      simp [hname]
    · next hname =>
      obtain ⟨text, -, hdone⟩ := exists_ok_of_bind hafter
      cases hdone
      simp [hname]
    · next hname =>
      obtain ⟨_, -, hdone⟩ := exists_ok_of_bind hafter
      cases hdone
      exact (or_iff_right hname).symm

theorem stoppedAt_readDeclaration (tag : Tag) {content : Content} (h : content.fault? = none) :
    stoppedAt (readDeclaration tag content) = (declarationProblems tag content).head? := by
  rw [← List.nil_append (declarationProblems tag content)]
  refine stoppedAt_bind (stoppedAt_declaration h {}) fun declaration hvisit => ?_
  have hdone : declaration.name?.isSome ↔ content.HasOpened "name" := by
    simpa using isSome_name?_visit hvisit
  rw [declarationProblems, missingChild]
  cases hname : declaration.name? with
  | some name => rw [if_pos (hdone.mp (by simp [hname]))]; rfl
  | none => rw [if_neg fun hopened => by simpa [hname] using hdone.mpr hopened]; rfl

theorem stoppedAt_parts {content : Content} (h : content.fault? = none) (command : PartialCommand) :
    stoppedAt (partVisitor.visit command content) =
      (content.children.flatMap (openedProblems ["proto", "param"] declarationProblems)).head? := by
  refine stoppedAt_sections ?_ ?_ h command
  · intro name hname
    rw [List.mem_cons, List.mem_singleton] at hname
    obtain rfl | rfl := hname
    all_goals
      refine ⟨_, rfl, ?_⟩
      intro command tag body hbody
      exact stoppedAt_bind_ok.trans (stoppedAt_readDeclaration tag hbody)
  · intro name hname
    split
    · exact absurd (by simp) hname
    · exact absurd (by simp) hname
    · rfl

theorem isSome_proto?_visit {content : Content} {command final : PartialCommand}
    (h : partVisitor.visit command content = .ok final) :
    final.proto?.isSome ↔ content.HasOpened "proto" ∨ command.proto?.isSome := by
  refine seen_visit (fun command : PartialCommand => command.proto?.isSome)
    (fun command text => Iff.rfl) (fun command tag => rfl) ?_ h
  intro command tag body after hafter
  simp only [partVisitor, Visitor.sections] at hafter
  split at hafter
  · next hread =>
    split at hread
    · next hname =>
      cases hread
      obtain ⟨declared, -, hdone⟩ := exists_ok_of_bind hafter
      cases hdone
      simp [hname]
    · next hname =>
      cases hread
      obtain ⟨declared, -, hdone⟩ := exists_ok_of_bind hafter
      cases hdone
      simp [hname]
    · cases hread
  · next hread =>
    split at hread
    · cases hread
    · cases hread
    · next hname _ =>
      obtain ⟨_, -, hdone⟩ := exists_ok_of_bind hafter
      cases hdone
      exact (or_iff_right hname).symm

theorem stoppedAt_readCommand (tag : Tag) {content : Content} (h : content.fault? = none) :
    stoppedAt (readCommand content) = (commandProblems tag content).head? := by
  refine stoppedAt_bind (stoppedAt_parts h {}) fun command hvisit => ?_
  have hdone : command.proto?.isSome ↔ content.HasOpened "proto" := by
    simpa using isSome_proto?_visit hvisit
  rw [missingChild]
  cases hproto : command.proto? with
  | some declared => rw [if_pos (hdone.mp (by simp [hproto]))]; rfl
  | none => rw [if_neg fun hopened => by simpa [hproto] using hdone.mpr hopened]; rfl

theorem stoppedAt_commands {content : Content} (h : content.fault? = none) (declarations : Declarations) :
    stoppedAt (commandVisitor.visit declarations content) =
      (content.children.flatMap (openedProblems ["command"] commandProblems)).head? := by
  refine stoppedAt_sections ?_ ?_ h declarations
  · intro name hname
    obtain rfl := List.mem_singleton.mp hname
    refine ⟨_, rfl, ?_⟩
    intro declarations tag body hbody
    exact stoppedAt_bind_ok.trans (stoppedAt_readCommand tag hbody)
  · intro name hname
    split
    · exact absurd List.mem_cons_self hname
    · rfl

theorem stoppedAt_readBlock (kind : BlockKind) (tag : Tag) {content : Content}
    (h : content.fault? = none) :
    stoppedAt (readBlock kind tag content) = (blockProblems tag content).head? := by
  refine stoppedAt_items ?_ h _
  intro block item body?
  simp only [tagProblems, List.mem_cons, List.not_mem_nil, or_false]
  split
  · next hname =>
    rw [if_pos (.inl hname)]
    exact stoppedAt_bind_ok.trans (stoppedAt_requiredAttribute item "name")
  · next hname =>
    rw [if_pos (.inr hname)]
    exact stoppedAt_bind_ok.trans (stoppedAt_requiredAttribute item "name")
  · next henum hcommand =>
    rw [if_neg (not_or.mpr ⟨henum, hcommand⟩)]
    rfl

theorem stoppedAt_blocks {content : Content} (h : content.fault? = none)
    (blocks : List InterfaceBlock) :
    stoppedAt (blockVisitor.visit blocks content) =
      (content.children.flatMap (openedProblems ["require", "remove"] blockProblems)).head? := by
  refine stoppedAt_sections ?_ ?_ h blocks
  · intro name hname
    rw [List.mem_cons, List.mem_singleton] at hname
    obtain rfl | rfl := hname
    all_goals
      refine ⟨_, rfl, ?_⟩
      intro blocks tag body hbody
      exact stoppedAt_bind_ok.trans (stoppedAt_readBlock _ tag hbody)
  · intro name hname
    split
    · exact absurd (by simp) hname
    · exact absurd (by simp) hname
    · rfl

theorem stoppedAt_readFeature (tag : Tag) {content : Content} (h : content.fault? = none) :
    stoppedAt (readFeature tag content) =
      (missing tag ["api", "name"] ++
        content.children.flatMap (openedProblems ["require", "remove"] blockProblems)).head? := by
  rw [missing_cons, List.append_assoc]
  refine stoppedAt_bind (stoppedAt_requiredAttribute tag "api") fun api _ => ?_
  refine stoppedAt_bind (stoppedAt_requiredAttribute tag "name") fun name _ => ?_
  exact stoppedAt_bind_ok.trans (stoppedAt_blocks h [])

theorem stoppedAt_readExtension (tag : Tag) {content : Content} (h : content.fault? = none) :
    stoppedAt (readExtension tag content) =
      (missing tag ["name"] ++
        content.children.flatMap (openedProblems ["require", "remove"] blockProblems)).head? := by
  refine stoppedAt_bind (stoppedAt_requiredAttribute tag "name") fun name _ => ?_
  exact stoppedAt_bind_ok.trans (stoppedAt_blocks h [])

/-! ### A whole document -/

theorem readSection?_eq_none_iff {selection : Selection} {declarations : Declarations} {tag : Tag}
    {content : Content} :
    readSection? selection declarations tag content = none ↔ ¬ IsSection tag := by
  unfold readSection? IsSection
  split
  · next hname => simp [hname]
  · next hname => simp [hname]
  · next hname => simp [hname]
  · next hname => simp [hname]
  · next hname => simp [hname]
  · next henums hgroups hcommands hfeature hextension =>
    simpa using ⟨henums, hgroups, hcommands, hfeature, hextension⟩

theorem exists_readSection? {tag : Tag} (h : IsSection tag) (selection : Selection)
    (declarations : Declarations) (content : Content) :
    ∃ result, readSection? selection declarations tag content = some result :=
  Option.ne_none_iff_exists'.mp (mt readSection?_eq_none_iff.mp (not_not_intro h))

theorem stoppedAt_readSection? {selection : Selection} {declarations : Declarations} {tag : Tag}
    {content : Content} {result : Except ReadError Declarations}
    (hresult : readSection? selection declarations tag content = some result)
    (h : content.fault? = none) :
    stoppedAt result = (sectionProblems selection tag content).head? := by
  unfold readSection? at hresult
  split at hresult
  all_goals cases hresult
  · next hname =>
    simp only [sectionProblems, hname]
    exact stoppedAt_enums selection tag h declarations
  · next hname =>
    simp only [sectionProblems, hname]
    exact stoppedAt_groups h declarations
  · next hname =>
    simp only [sectionProblems, hname]
    exact stoppedAt_commands h declarations
  · next hname =>
    simp only [sectionProblems, hname]
    exact stoppedAt_bind_ok.trans (stoppedAt_readFeature tag h)
  · next hname =>
    simp only [sectionProblems, hname]
    exact stoppedAt_bind_ok.trans (stoppedAt_readExtension tag h)

theorem exists_readOutside_section {declarations? : Option Declarations} {tag : Tag}
    (h : declarations?.isSome ∧ IsSection tag) (selection : Selection) (body next : Content) :
    ∃ declarations result, readSection? selection declarations tag body = some result ∧
      readOutside selection declarations? (.element tag body next) =
        result >>= fun declarations => readOutside selection (some declarations) next := by
  obtain ⟨declarations, rfl⟩ := Option.isSome_iff_exists.mp h.1
  obtain ⟨result, hresult⟩ := exists_readSection? h.2 selection declarations body
  refine ⟨declarations, result, hresult, ?_⟩
  rw [readOutside, Option.bind_some, hresult]

def entered? (declarations? : Option Declarations) (tag : Tag) : Option Declarations :=
  if tag.name = "registry" then some (declarations?.getD {}) else declarations?

theorem isSome_entered? (declarations? : Option Declarations) (tag : Tag) :
    (entered? declarations? tag).isSome = (declarations?.isSome || tag.name = "registry") := by
  by_cases hname : tag.name = "registry" <;> simp [entered?, hname]

theorem readOutside_through {selection : Selection} {declarations? : Option Declarations} {tag : Tag}
    {body next : Content} (h : ¬ (declarations?.isSome ∧ IsSection tag)) :
    readOutside selection declarations? (.element tag body next) =
      readOutside selection (entered? declarations? tag) body >>= fun after =>
        readOutside selection after next := by
  have hread : (declarations?.bind fun declarations =>
      readSection? selection declarations tag body) = none := by
    rw [Option.bind_eq_none_iff]
    intro declarations hdeclarations
    exact readSection?_eq_none_iff.mpr fun htag => h ⟨by simp [hdeclarations], htag⟩
  rw [readOutside, hread]
  rfl

/-- Once the registry element was opened it stays so. -/
theorem isSome_readOutside {selection : Selection} {content : Content}
    {declarations? final : Option Declarations}
    (h : readOutside selection declarations? content = .ok final) :
    final.isSome ↔ declarations?.isSome ∨ content.Opens "registry" := by
  induction content generalizing declarations? final with
  | done =>
    cases h
    exact (or_iff_left id).symm
  | failed fault => cases h
  | text characters next ih => exact ih h
  | void tag next ih => exact ih h
  | element tag body next ihbody ihnext =>
    by_cases hsection : declarations?.isSome ∧ IsSection tag
    · obtain ⟨declarations, result, -, hread⟩ :=
        exists_readOutside_section hsection selection body next
      rw [hread] at h
      obtain ⟨after, -, hrest⟩ := exists_ok_of_bind h
      rw [ihnext hrest]
      simp [hsection.1]
    · rw [readOutside_through hsection] at h
      obtain ⟨after, hafter, hrest⟩ := exists_ok_of_bind h
      rw [ihnext hrest, ihbody hafter, isSome_entered?, Content.Opens]
      simp [or_assoc]

theorem stoppedAt_readOutside (selection : Selection) {content : Content} (h : content.fault? = none)
    (declarations? : Option Declarations) :
    stoppedAt (readOutside selection declarations? content) =
      ((sections declarations?.isSome content).flatMap fun part =>
        sectionProblems selection part.1 part.2).head? := by
  induction content generalizing declarations? with
  | done => rfl
  | failed fault => cases h
  | text characters next ih => exact ih h declarations?
  | void tag next ih => exact ih h declarations?
  | element tag body next ihbody ihnext =>
    obtain ⟨hbody, hnext⟩ := Option.or_eq_none_iff.mp h
    rw [sections]
    by_cases hsection : declarations?.isSome ∧ IsSection tag
    · obtain ⟨declarations, result, hresult, hread⟩ :=
        exists_readOutside_section hsection selection body next
      rw [if_pos hsection, List.flatMap_cons, hread]
      refine stoppedAt_bind (stoppedAt_readSection? hresult hbody) fun declarations _ => ?_
      exact ihnext hnext (some declarations)
    · rw [if_neg hsection, List.flatMap_append, readOutside_through hsection, ← isSome_entered?]
      refine stoppedAt_bind (ihbody hbody _) fun after hafter => ?_
      have hentered : after.isSome =
          ((entered? declarations? tag).isSome || body.Opens "registry") := by
        rw [Bool.eq_iff_iff, isSome_readOutside hafter]
        simp
      rw [ihnext hnext, hentered]

theorem stoppedAt_read (text : String) (selection : Selection) (h : (Events.ofText text).fault? = none) :
    stoppedAt (read text selection) = (problems selection (Content.ofText text)).head? := by
  have hcontent := Content.fault?_ofText h
  refine stoppedAt_bind_ok.trans ?_
  refine stoppedAt_bind (stoppedAt_readOutside selection hcontent none) fun final hfinal => ?_
  have hentered := isSome_readOutside hfinal
  cases final with
  | some declarations => rw [if_pos (by simpa using hentered)]; rfl
  | none => rw [if_neg (by simpa using hentered)]; rfl

/-- A text without faults is read if its registry element is opened and its sections are well formed, and
otherwise reading stops at the first of its problems. -/
theorem read_isOk_iff {text : String} (h : (Events.ofText text).fault? = none) (selection : Selection) :
    ((∃ registry, read text selection = .ok registry) ↔
      (Content.ofText text).Opens "registry" ∧
        ∀ part ∈ sections false (Content.ofText text), WellFormed selection part.1 part.2) ∧
    ∀ error, read text selection = .error error ↔
      (problems selection (Content.ofText text)).head? = some error := by
  rw [← problems_eq_nil_iff, ← List.head?_eq_none_iff, ← stoppedAt_read text selection h]
  cases read text selection with
  | ok registry => simp [stoppedAt]
  | error error => simp [stoppedAt]

def namelessFeature : Content :=
  .element ⟨"registry", []⟩ (.element ⟨"feature", [⟨"api", "gles2"⟩]⟩ .done .done) .done

theorem read_isOk_iff_namelessFeature :
    (Events.ofText (String.ofList namelessFeature.write)).fault? = none ∧
      read (String.ofList namelessFeature.write) {} = .error (.missingAttribute "feature" "name") := by
  have hplain : namelessFeature.Plain := by
    refine ⟨⟨by decide, by simp, by simp⟩, ⟨⟨by decide, ?_, by simp⟩, trivial, trivial⟩, trivial⟩
    intro attr hattr
    rw [List.mem_singleton] at hattr
    subst hattr
    decide
  have hfault : (Events.ofText (String.ofList namelessFeature.write)).fault? = none := by
    rw [ofText_write_events hplain rfl, Content.fault?_events hplain]
    rfl
  refine ⟨hfault, ((read_isOk_iff hfault {}).2 _).mpr ?_⟩
  rw [ofText_write_content hplain rfl]
  decide

end RegistryBindings.Registry
