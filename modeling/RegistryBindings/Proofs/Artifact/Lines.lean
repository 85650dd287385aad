import Mathlib.Data.List.Basic
import RegistryBindings.Artifact.Basic
import RegistryBindings.Proofs.Text.Words

/-!
# Lines, lists and bodies read back

Source text is taken apart as it was put together. A text falls into its lines, a list into the items
between its commas, and lines fall into bodies: a body begins after a line that opens one and ends before
the next line that closes it. `Yields` says what bodies a run of lines has whatever follows it, so that a
long artifact is read part by part.
-/

namespace RegistryBindings.Artifact

open Text

/-! ### Lines -/

def lines (text : String) : List String :=
  (pieces '\n' text.toList).dropLast.map String.ofList

theorem pieces_unlines {given : List String} (h : ∀ line ∈ given, '\n' ∉ line.toList) :
    pieces '\n' (unlines given).toList = given.map (·.toList) ++ [[]] := by
  induction given with
  | nil => rfl
  | cons line given ih =>
    have htext : (unlines (line :: given)).toList =
        line.toList ++ '\n' :: (unlines given).toList := by
      simp [unlines, String.join_cons]
    rw [htext, pieces_append_separator, pieces_of_not_mem (h line List.mem_cons_self),
      ih fun other hother => h other (List.mem_cons_of_mem line hother)]
    rfl

theorem lines_unlines {given : List String} (h : ∀ line ∈ given, '\n' ∉ line.toList) :
    lines (unlines given) = given := by
  rw [lines, pieces_unlines h, List.dropLast_concat, List.map_map]
  exact List.map_id'' (fun line => String.ofList_toList) given

/-- A line may be more than one where newlines are in it. The others are found as they were. -/
theorem lines_unlines_cons (line : String) (given : List String) :
    lines (unlines (line :: given)) = (pieces '\n' line.toList).map String.ofList ++ lines (unlines given) := by
  have htext : (unlines (line :: given)).toList = line.toList ++ '\n' :: (unlines given).toList := by
    simp [unlines, String.join_cons]
  rw [lines, htext, pieces_append_separator, List.dropLast_append_of_ne_nil (pieces_ne_nil '\n' _),
    List.map_append, lines]

theorem mem_lines_unlines {line : String} {given : List String} (h : line ∈ given) (hline : '\n' ∉ line.toList) :
    line ∈ lines (unlines given) := by
  induction given with
  | nil => cases h
  | cons other given ih =>
    rw [lines_unlines_cons, List.mem_append]
    rcases List.mem_cons.mp h with rfl | hmem
    · left
      rw [pieces_of_not_mem hline, List.map_singleton, String.ofList_toList]
      exact List.mem_singleton_self line
    · exact .inr (ih hmem)

/-- Reading what was written, item by item. -/
theorem filterMap_map_eq_map {β γ δ : Type} {write : β → γ} {read? : γ → Option δ} {found : β → δ}
    {items : List β} (h : ∀ item ∈ items, read? (write item) = some (found item)) :
    (items.map write).filterMap read? = items.map found := by
  rw [List.filterMap_map, ← List.filterMap_eq_map]
  exact List.filterMap_congr h

theorem mem_intercalate {β : Type} {separator : List β} {chunks : List (List β)} {item : β}
    (h : item ∈ separator.intercalate chunks) : item ∈ separator ∨ ∃ chunk ∈ chunks, item ∈ chunk := by
  induction chunks with
  | nil => simp at h
  | cons chunk chunks ih =>
    cases chunks with
    | nil => exact .inr ⟨chunk, List.mem_singleton_self chunk, by simpa using h⟩
    | cons next chunks =>
      rw [List.intercalate_cons_cons, List.mem_append, List.mem_append] at h
      rcases h with (hchunk | hseparator) | hrest
      · exact .inr ⟨chunk, List.mem_cons_self, hchunk⟩
      · exact .inl hseparator
      · exact (ih hrest).imp_right fun ⟨found, hfound, hitem⟩ =>
          ⟨found, List.mem_cons_of_mem chunk hfound, hitem⟩

/-! ### Items between commas -/

def commaItems (text : String) : List String :=
  match pieces ',' text.toList with
  | [[]] => []
  | [] => []
  | first :: rest => String.ofList first :: rest.map fun piece => String.ofList (piece.drop 1)

theorem pieces_commaSeparated {item : String} {items : List String} (h : ',' ∉ item.toList)
    (hitems : ∀ other ∈ items, ',' ∉ other.toList) :
    pieces ',' (commaSeparated (item :: items)).toList =
      item.toList :: items.map fun other => ' ' :: other.toList := by
  induction items generalizing item with
  | nil => simpa [commaSeparated] using pieces_of_not_mem h
  | cons next items ih =>
    have htext : (commaSeparated (item :: next :: items)).toList =
        item.toList ++ ',' :: ' ' :: (commaSeparated (next :: items)).toList := by
      simp [commaSeparated, String.intercalate_cons_cons]
    have hnext := ih (hitems next List.mem_cons_self) fun other hother =>
      hitems other (List.mem_cons_of_mem next hother)
    rw [htext, pieces_append_separator, pieces_of_not_mem h, pieces_cons (by decide) hnext]
    rfl

theorem commaItems_commaSeparated {items : List String} (hne : ∀ item ∈ items, item ≠ "")
    (hcomma : ∀ item ∈ items, ',' ∉ item.toList) : commaItems (commaSeparated items) = items := by
  cases items with
  | nil => rfl
  | cons item items =>
    have hitem : item.toList ≠ [] := by
      rw [Ne, String.toList_eq_nil_iff]
      exact hne item List.mem_cons_self
    have hpieces := pieces_commaSeparated (hcomma item List.mem_cons_self) fun other hother =>
      hcomma other (List.mem_cons_of_mem item hother)
    rw [commaItems, hpieces]
    split
    · next heq => exact absurd (List.cons.inj heq).1 hitem
    · next heq => cases heq
    · next first rest _ heq =>
      obtain ⟨rfl, rfl⟩ := List.cons.inj heq
      simp [Function.comp_def]

/-- A list of parameters behind a first one. -/
theorem commaSeparated_cons (item : String) (items : List String) :
    commaSeparated (item :: items) =
      item ++ (if items = [] then "" else ", " ++ commaSeparated items) := by
  cases items with
  | nil => simp [commaSeparated]
  | cons next items => simp [commaSeparated, String.intercalate_cons_cons, String.append_assoc]

theorem not_mem_commaSeparated {c : Char} {items : List String} (hcomma : c ≠ ',') (hspace : c ≠ ' ')
    (h : ∀ item ∈ items, c ∉ item.toList) : c ∉ (commaSeparated items).toList := by
  induction items with
  | nil => simp [commaSeparated]
  | cons item items ih =>
    have hrest := ih fun other hother => h other (List.mem_cons_of_mem item hother)
    rw [commaSeparated_cons, String.toList_append, List.mem_append, not_or]
    refine ⟨h item List.mem_cons_self, ?_⟩
    split
    · simp
    · simp [hcomma, hspace, hrest]

/-! ### Bodies -/

variable {α : Type} {opens : String → Option α} {closes : String → Bool}

/-- The bodies in the lines. `opens` says which lines open one, and what they say of it. -/
def bodies (opens : String → Option α) (closes : String → Bool) : List String → List (α × List String)
  | [] => []
  | line :: rest =>
    match opens line with
    | some head => (head, rest.takeWhile (!closes ·)) :: bodies opens closes rest
    | none => bodies opens closes rest

/-- The bodies of the chunk are the ones found, whatever lines follow. -/
def Yields (opens : String → Option α) (closes : String → Bool) (chunk : List String)
    (found : List (α × List String)) : Prop :=
  ∀ rest, bodies opens closes (chunk ++ rest) = found ++ bodies opens closes rest

theorem Yields.bodies_eq {chunk : List String} {found : List (α × List String)}
    (h : Yields opens closes chunk found) : bodies opens closes chunk = found := by
  simpa [bodies] using h []

theorem Yields.append {chunk more : List String} {found others : List (α × List String)}
    (h : Yields opens closes chunk found) (hmore : Yields opens closes more others) :
    Yields opens closes (chunk ++ more) (found ++ others) := by
  intro rest
  rw [List.append_assoc, h, hmore, List.append_assoc]

theorem Yields.flatMap {β : Type} {chunk : β → List String} {found : β → List (α × List String)}
    {items : List β} (h : ∀ item ∈ items, Yields opens closes (chunk item) (found item)) :
    Yields opens closes (items.flatMap chunk) (items.flatMap found) := by
  induction items with
  | nil => exact fun rest => rfl
  | cons item items ih =>
    rw [List.flatMap_cons, List.flatMap_cons]
    exact (h item List.mem_cons_self).append
      (ih fun other hother => h other (List.mem_cons_of_mem item hother))

/-- Chunks with lines between them that open nothing. -/
theorem Yields.intercalate {β : Type} {separator : List String} {chunk : β → List String}
    {found : β → List (α × List String)} {items : List β}
    (hseparator : Yields opens closes separator [])
    (h : ∀ item ∈ items, Yields opens closes (chunk item) (found item)) :
    Yields opens closes (separator.intercalate (items.map chunk)) (items.flatMap found) := by
  induction items with
  | nil => exact fun rest => rfl
  | cons item items ih =>
    have hitem := h item List.mem_cons_self
    have hitems := ih fun other hother => h other (List.mem_cons_of_mem item hother)
    cases items with
    | nil => simpa using hitem
    | cons next items =>
      simpa [List.intercalate_cons_cons] using (hitem.append hseparator).append hitems

/-- Lines that open nothing. -/
theorem yields_nil {chunk : List String} (h : ∀ line ∈ chunk, opens line = none) :
    Yields opens closes chunk [] := by
  intro rest
  induction chunk with
  | nil => rfl
  | cons line chunk ih =>
    rw [List.cons_append, bodies, h line List.mem_cons_self]
    exact ih fun other hother => h other (List.mem_cons_of_mem line hother)

/-- A line that opens a body, the body, and the line that closes it. -/
theorem yields_body {opening closing : String} {head : α} {body : List String}
    (hopening : opens opening = some head) (hbody : ∀ line ∈ body, opens line = none)
    (hopen : ∀ line ∈ body, closes line = false) (hclosing : opens closing = none)
    (hclosed : closes closing = true) :
    Yields opens closes (opening :: (body ++ [closing])) [(head, body)] := by
  intro rest
  have hbodies : bodies opens closes (body ++ [closing] ++ rest) = bodies opens closes rest := by
    refine yields_nil (fun line hline => ?_) rest
    rw [List.mem_append, List.mem_singleton] at hline
    rcases hline with hline | rfl
    · exact hbody line hline
    · exact hclosing
  have htake : (body ++ [closing] ++ rest).takeWhile (!closes ·) = body := by
    rw [List.append_assoc, List.takeWhile_append_of_pos (by simpa using hopen), List.singleton_append,
      List.takeWhile_cons_of_neg (by simp [hclosed]), List.append_nil]
  rw [List.cons_append, bodies, hopening]
  simp only [hbodies, htake]
  rfl

end RegistryBindings.Artifact
