import RegistryBindings.Proofs.Registry.Places

/-!
# Comments and instructions say nothing

A comment or an instruction may be written at any place outside markup and references: between elements, or in
the middle of a name or a type. It parts the text around it in two, and every reader puts texts together again,
so the result is the same, and so is the error where there is one. Readers do not see either in how many pieces
the characters between two tags are delivered.
-/

namespace RegistryBindings.Registry

open Markup

/-- Where a text ends outside markup and references, what follows it can be read by itself. -/
theorem read_append {before : List Char} (h : (scan before).fault? = none) (more : List Char)
    (selection : Selection) :
    read (String.ofList (before ++ more)) selection =
      readEvents (((scan before).append (scan more)).nest []) selection := by
  rw [read_eq_readEvents]
  exact readEvents_nest_congr (merged_scan_append h more) []

/-- Characters as a reader may deliver them, piece by piece. -/
def inPieces (pieces : List (List Char)) (rest : Events) : Events :=
  pieces.foldr (fun piece events => .cons (.text piece) events) rest

theorem merged_inPieces (pieces : List (List Char)) (rest : Events) :
    (inPieces pieces rest).merged = (Events.cons (.text pieces.flatten) rest).merged := by
  induction pieces with
  | nil => rfl
  | cons piece pieces ih =>
    have hpieces : (inPieces (piece :: pieces) rest).merged = (inPieces pieces rest).merged.withText piece := rfl
    rw [hpieces, ih, List.flatten_cons, Events.merged, Events.merged, Events.withText_append]

/-- A comment or an instruction, written anywhere outside markup and references, does not change the result of
reading, and neither does the delivery of characters in pieces. -/
theorem read_insert_aside (selection : Selection) :
    (∀ before markup after, EndsOutside before → IsAside markup →
      read (String.ofList (before ++ markup ++ after)) selection =
        read (String.ofList (before ++ after)) selection) ∧
    ∀ (events : Events) (pieces : List (List Char)) (rest : Events),
      readEvents (events.append (inPieces pieces rest)) selection =
        readEvents (events.append (.cons (.text pieces.flatten) rest)) selection := by
  refine ⟨fun before markup after hbefore hmarkup => ?_, fun events pieces rest => ?_⟩
  · have hmerged : (Events.cons .aside (scan after)).merged = (scan after).merged := rfl
    rcases hbefore with hbefore | hstopped
    · rw [List.append_assoc, read_append hbefore, read_append hbefore, scan_aside_append hmarkup]
      exact readEvents_nest_congr (Events.merged_append_congr hmerged (scan before)) []
    · rw [List.append_assoc, read_eq_readEvents, read_eq_readEvents, hstopped, hstopped]
  · rw [← readEvents_merged, Events.merged_append_congr (merged_inPieces pieces rest), readEvents_merged]

/-- A command as far as the middle of its return type. -/
def flushBefore : List Char :=
  "<registry><commands><command><proto>vo".toList

def flushAfter : List Char :=
  ["id <name>glFlush</name></proto>", "</command></commands>", "<feature api='gl' name='GL_VERSION_1_0'>",
    "<require><command name='glFlush'/>", "</require></feature></registry>"].flatMap String.toList

/-- A comment that looks like an element, and like the end of one. -/
def nameComment : List Char :=
  '<' :: '!' :: '-' :: '-' :: ("<name></proto>--".toList ++ "-->".toList)

theorem read_insert_aside_flush :
    read (String.ofList (flushBefore ++ nameComment ++ flushAfter)) {} =
        read (String.ofList (flushBefore ++ flushAfter)) {} ∧
      (read (String.ofList (flushBefore ++ flushAfter)) {}).toOption.map
          (fun registry => registry.versions.map (·.commands)) =
        some [[⟨"glFlush", ⟨"void", none⟩, []⟩]] := by
  have hbefore : EndsOutside flushBefore := .inl (by decide +kernel)
  have hcomment : IsAside nameComment := .comment _ (by decide +kernel)
  refine ⟨(read_insert_aside {}).1 _ _ _ hbefore hcomment, ?_⟩
  rw [read_eq_readEvents]
  decide +kernel

end RegistryBindings.Registry
