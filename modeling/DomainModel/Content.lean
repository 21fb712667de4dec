import DomainModel.Json.Value
/-!
# Content kept for later reading

A record that names its kind is kept as content until the kind is known. Its scalars have their
values already; its keys are names, or numbers that count the declared fields of the record.
-/
namespace DomainModel

inductive ContentKey where
  | name (s : String)
  | index (n : Nat)
  | other
  deriving DecidableEq

namespace ContentKey

def name? : ContentKey → Option String
  | name s => some s
  | _ => none

/-- The declared name that a key stands for; none for a key that is neither name nor number. -/
def among? (declared : List String) : ContentKey → Option (Option String)
  | name s => some (some s)
  | index n => some declared[n]?
  | other => none

end ContentKey

/-- An infinity or the value that is no number is `unlimited`. -/
inductive Content where
  | scalar (s : Scalar)
  | unlimited
  | list (items : List Content)
  | record (entries : List (ContentKey × Content))

namespace Content

def isNull : Content → Bool
  | scalar .null => true
  | _ => false

def text? : Content → Option String
  | scalar (.text s) => some s
  | _ => none

def bool? : Content → Option Bool
  | scalar (.bool b) => some b
  | _ => none

/-- Whether there is nothing to read: null, or a record without entries. -/
def isNothing : Content → Bool
  | scalar .null => true
  | record [] => true
  | _ => false

/-- The entries with each key replaced by what it stands for. -/
def withNames {α : Type} (key? : ContentKey → Option α) :
    List (ContentKey × Content) → Option (List (α × Content))
  | [] => some []
  | (key, c) :: rest =>
    match key? key, withNames key? rest with
    | some key, some entries => some ((key, c) :: entries)
    | _, _ => none

mutual

/-- The value of content whose keys are all names. Unlimited numbers have none and become null. -/
def toJson? : Content → Option Json
  | scalar s => some (.scalar s)
  | unlimited => some .null
  | list items => (itemsToJson? items).map Json.list
  | record entries => (entriesToJson? entries).map Json.record

def itemsToJson? : List Content → Option (List Json)
  | [] => some []
  | c :: rest =>
    match toJson? c, itemsToJson? rest with
    | some v, some vs => some (v :: vs)
    | _, _ => none

def entriesToJson? : List (ContentKey × Content) → Option (List (String × Json))
  | [] => some []
  | (key, c) :: rest =>
    match key.name?, toJson? c, entriesToJson? rest with
    | some key, some v, some vs => some ((key, v) :: vs)
    | _, _, _ => none

end

end Content

namespace Json

mutual

def toContent : Json → Content
  | .scalar s => .scalar s
  | .list items => .list (itemsToContent items)
  | .record entries => .record (entriesToContent entries)

def itemsToContent : List Json → List Content
  | [] => []
  | v :: rest => toContent v :: itemsToContent rest

def entriesToContent : List (String × Json) → List (ContentKey × Content)
  | [] => []
  | (key, v) :: rest => (.name key, toContent v) :: entriesToContent rest

end

end Json
end DomainModel
