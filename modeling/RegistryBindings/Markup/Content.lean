import RegistryBindings.Markup.Event

/-!
# Content: events as a tree

The content of an element is a sequence of texts and elements, in the order of the document. It ends
where the element's end tag stands, where the text ends, or at a fault, and after a fault nothing
follows on any level. `Content.split` folds events into content: it returns the content up to the first
end tag that matches no start tag among the events, and the contents that follow that end tag and the
ones after it.
-/

namespace RegistryBindings.Markup

inductive Content where
  | done
  | failed (fault : Fault)
  | text (content : List Char) (next : Content)
  | void (tag : Tag) (next : Content)
  | element (tag : Tag) (body next : Content)
deriving DecidableEq, Repr

namespace Content

/-- The content that the events begin with, and the contents after each end tag left unmatched. -/
def split : Events → Content × List Content
  | .ended => (done, [])
  | .failed fault => (failed fault, [])
  | .cons event rest =>
    let (content, after) := split rest
    match event with
    | .text characters => (text characters content, after)
    | .void tag => (void tag content, after)
    | .aside => (content, after)
    | .closing _ => (done, content :: after)
    | .opening tag =>
      match after with
      | [] => (element tag content done, [])
      | next :: outer => (element tag content next, outer)

def ofText (text : String) : Content :=
  (split (Events.ofText text)).1

def fault? : Content → Option Fault
  | done => none
  | failed fault => some fault
  | text _ next => next.fault?
  | void _ next => next.fault?
  | element _ body next => body.fault?.or next.fault?

end Content

end RegistryBindings.Markup
