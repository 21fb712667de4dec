import DomainModel.Json.Token
/-!
# Reading JSON text

A text is one value with blanks around it. Parts that are well formed but have no value, such as
numbers out of range or more than 127 nested lists and records, stay in the tree of a text as
unreadable; a text is read as a value where nothing in it is unreadable.
-/
namespace DomainModel

/-- What a text says. The keys with an unpaired surrogate are absent. -/
inductive JsonSource where
  | scalar (s : Scalar)
  | unreadable
  | list (items : List JsonSource)
  | record (entries : List (Option String × JsonSource))

namespace JsonSource

/-- The deepest nesting of lists and records that is read. -/
def maxDepth : Nat := 127

/-- A list or record, of which `depth` more may be opened. -/
def within (depth : Nat) (t : JsonSource) : JsonSource := if depth = 0 then unreadable else t

mutual

/-- One value and the tokens after it. -/
def ofTokens (fuel depth : Nat) (tokens : List JsonToken) :
    Option (JsonSource × List JsonToken) :=
  match fuel, tokens with
  | _, .scalar s :: rest => some (scalar s, rest)
  | _, .brokenText :: rest => some (unreadable, rest)
  | _, .hugeNumber :: rest => some (unreadable, rest)
  | _, .mark '[' :: .mark ']' :: rest => some (within depth (list []), rest)
  | fuel + 1, .mark '[' :: rest => do
    let (items, rest) ← itemsOfTokens fuel (depth - 1) rest
    return (within depth (list items), rest)
  | _, .mark '\x7b' :: .mark '\x7d' :: rest => some (within depth (record []), rest)
  | fuel + 1, .mark '\x7b' :: rest => do
    let (entries, rest) ← entriesOfTokens fuel (depth - 1) rest
    return (within depth (record entries), rest)
  | _, _ => none

/-- One item or more, up to the closing bracket. -/
def itemsOfTokens (fuel depth : Nat) (tokens : List JsonToken) :
    Option (List JsonSource × List JsonToken) :=
  match fuel with
  | 0 => none
  | fuel + 1 => do
    let (t, rest) ← ofTokens fuel depth tokens
    match rest with
    | .mark ']' :: rest => return ([t], rest)
    | .mark ',' :: rest =>
      let (items, rest) ← itemsOfTokens fuel depth rest
      return (t :: items, rest)
    | _ => none

/-- One entry or more, up to the closing brace. -/
def entriesOfTokens (fuel depth : Nat) (tokens : List JsonToken) :
    Option (List (Option String × JsonSource) × List JsonToken) :=
  match fuel with
  | 0 => none
  | fuel + 1 => do
    let (key, rest) ←
      match tokens with
      | .scalar (.text key) :: .mark ':' :: rest => some (some key, rest)
      | .brokenText :: .mark ':' :: rest => some (none, rest)
      | _ => none
    let (t, rest) ← ofTokens fuel depth rest
    match rest with
    | .mark '\x7d' :: rest => return ([(key, t)], rest)
    | .mark ',' :: rest =>
      let (entries, rest) ← entriesOfTokens fuel depth rest
      return ((key, t) :: entries, rest)
    | _ => none

end

/-- The tree of a well-formed text. -/
def parse (s : String) : Option JsonSource := do
  let tokens ← JsonToken.ofChars s.toList
  let (t, rest) ← ofTokens (2 * tokens.length) maxDepth tokens
  if rest.isEmpty then return t else none

mutual

/-- The value, if every part of the tree can be read. -/
def toJson? : JsonSource → Option Json
  | scalar s => some (.scalar s)
  | unreadable => none
  | list items => (itemsToJson? items).map Json.list
  | record entries => (entriesToJson? entries).map Json.record

def itemsToJson? : List JsonSource → Option (List Json)
  | [] => some []
  | t :: rest =>
    match toJson? t, itemsToJson? rest with
    | some v, some vs => some (v :: vs)
    | _, _ => none

def entriesToJson? : List (Option String × JsonSource) → Option (List (String × Json))
  | [] => some []
  | (key, t) :: rest =>
    match key, toJson? t, entriesToJson? rest with
    | some key, some v, some vs => some ((key, v) :: vs)
    | _, _, _ => none

end

end JsonSource

/-- The value that a text denotes; a repeated key stays repeated. -/
def Json.parse (s : String) : Option Json := (JsonSource.parse s).bind JsonSource.toJson?

end DomainModel
