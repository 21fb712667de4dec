import DomainModel.Document.Basic
/-!
# Comments of declared fields

A leading comment belongs to the next field. A trailing comment belongs to the previous field
unless a separator stands between them, and then to the next one. The first comment of a field
counts.
-/
namespace DomainModel

/-- The fields read so far with their comments, the comment that waits for the next field, and
whether a separator, or no field yet, precedes what comes. -/
structure CommentState where
  done : List (DeclaredField × Option String)
  waiting : Option String
  separated : Bool

namespace CommentState

def start : CommentState := ⟨[], none, true⟩

/-- Gives the last field the comment unless it has one. -/
def describeLast (text : String) :
    List (DeclaredField × Option String) → List (DeclaredField × Option String)
  | [] => []
  | [(f, comment)] => [(f, comment <|> some text)]
  | item :: rest => item :: describeLast text rest

def step (s : CommentState) : BodyItem → CommentState
  | .field f => ⟨s.done ++ [(f, s.waiting)], none, false⟩
  | .separator => { s with separated := true }
  | .comment text form =>
    if form = .trailing ∧ s.separated = false then { s with done := describeLast text s.done }
    else { s with waiting := s.waiting <|> some text }

end CommentState

/-- Each field of an entity body, in order, with the comment that belongs to it. -/
def commentedFields (body : List BodyItem) : List (DeclaredField × Option String) :=
  (body.foldl CommentState.step CommentState.start).done

end DomainModel
