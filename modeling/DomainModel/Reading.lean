import DomainModel.Content
import DomainModel.Json.Source
/-!
# Reading records from trees

Records are read from any tree that answers a few questions. A declared key may stand once; a key
without a default must stand, unless it is optional. A record may also be given as the list of its
fields in declared order, of which only fields with a default may be left out at the end.
-/
namespace DomainModel

/-- What a reader may ask of a tree. A tree answers by its own rules what may stand for a record,
and which forms the word of a choice may take. -/
class SourceTree (τ : Type) where
  isNull : τ → Bool
  text? : τ → Option String
  bool? : τ → Option Bool
  items? : τ → Option (List τ)
  /-- The entries of a table. -/
  entries? : τ → Option (List (String × τ))
  /-- The entries of a record with these declared names. -/
  named? : List String → τ → Option (List (String × τ))
  /-- The items of a list that may stand for a record. -/
  positional? : τ → Option (List τ)
  /-- The word of a choice among these. -/
  choice? : List String → τ → Option String
  json? : τ → Option Json
  content? : τ → Option Content
  /-- The entries of a record whose kind is not known yet. -/
  contentEntries? : τ → Option (List (ContentKey × τ))

namespace Json

def items? : Json → Option (List Json)
  | .list items => some items
  | _ => none

def entries? : Json → Option (List (String × Json))
  | .record entries => some entries
  | _ => none

/-- A word, or a record of it alone with null under it. -/
def choice? : Json → Option String
  | .text word => some word
  | .record [(word, .null)] => some word
  | _ => none

def contentEntries? : Json → Option (List (ContentKey × Json))
  | .record entries => some (entries.map fun e => (.name e.1, e.2))
  | _ => none

end Json

instance : SourceTree Json where
  isNull := Json.isNull
  text? := Json.text?
  bool? := Json.bool?
  items? := Json.items?
  entries? := Json.entries?
  named? := fun _ => Json.entries?
  positional? := Json.items?
  choice? := fun _ => Json.choice?
  json? := some
  content? := fun j => some j.toContent
  contentEntries? := Json.contentEntries?

namespace JsonSource

def isNull : JsonSource → Bool
  | scalar .null => true
  | _ => false

def text? : JsonSource → Option String
  | scalar (.text s) => some s
  | _ => none

def bool? : JsonSource → Option Bool
  | scalar (.bool b) => some b
  | _ => none

def items? : JsonSource → Option (List JsonSource)
  | list items => some items
  | _ => none

/-- The entries, if every key can be read. -/
def readableKeys : List (Option String × JsonSource) → Option (List (String × JsonSource))
  | [] => some []
  | (some key, t) :: rest => (readableKeys rest).map ((key, t) :: ·)
  | (none, _) :: _ => none

def entries? : JsonSource → Option (List (String × JsonSource))
  | record entries => readableKeys entries
  | _ => none

/-- A word, or a record of it alone with null under it. -/
def choice? : JsonSource → Option String
  | scalar (.text word) => some word
  | record [(some word, scalar .null)] => some word
  | _ => none

end JsonSource

instance : SourceTree JsonSource where
  isNull := JsonSource.isNull
  text? := JsonSource.text?
  bool? := JsonSource.bool?
  items? := JsonSource.items?
  entries? := JsonSource.entries?
  named? := fun _ => JsonSource.entries?
  positional? := JsonSource.items?
  choice? := fun _ => JsonSource.choice?
  json? := JsonSource.toJson?
  content? := fun t => t.toJson?.map Json.toContent
  contentEntries? := fun t =>
    t.entries?.map fun entries => entries.map fun e => (.name e.1, e.2)

namespace Content

def items? : Content → Option (List Content)
  | list items => some items
  | _ => none

def entries? : Content → Option (List (String × Content))
  | record entries => withNames ContentKey.name? entries
  | _ => none

/-- The entries under names, a number standing for the declared name at that place. Numbers beyond
the declared names do not count. -/
def named? (declared : List String) : Content → Option (List (String × Content))
  | record entries =>
    (withNames (ContentKey.among? declared) entries).map fun entries =>
      entries.filterMap fun e => e.1.map (·, e.2)
  | _ => none

/-- A word, or a record of it or its number alone with nothing under it. -/
def choice? (words : List String) : Content → Option String
  | scalar (.text word) => some word
  | record [(key, under)] => if under.isNothing then (key.among? words).join else none
  | _ => none

def contentEntries? : Content → Option (List (ContentKey × Content))
  | record entries => some entries
  | _ => none

end Content

instance : SourceTree Content where
  isNull := Content.isNull
  text? := Content.text?
  bool? := Content.bool?
  items? := Content.items?
  entries? := Content.entries?
  named? := Content.named?
  positional? := Content.items?
  choice? := Content.choice?
  json? := Content.toJson?
  content? := some
  contentEntries? := Content.contentEntries?

/-- A declared key of a record; only a defaulted one may be missing from a positional list. -/
structure DeclaredKey where
  name : String
  defaulted : Bool

namespace DeclaredKey

def plain (name : String) : DeclaredKey := ⟨name, false⟩

def withDefault (name : String) : DeclaredKey := ⟨name, true⟩

end DeclaredKey

namespace SourceTree
variable {τ : Type} [SourceTree τ] {α : Type}

def standsOnce (entries : List (String × τ)) (key : String) : Bool :=
  (entries.filter fun e => e.1 == key).length ≤ 1

/-- The entries of a record in either form, each declared key at most once. -/
def fields? (declared : List DeclaredKey) (t : τ) : Option (List (String × τ)) :=
  let names := declared.map (·.name)
  match named? names t with
  | some entries => if names.all (standsOnce entries) then some entries else none
  | none =>
    match positional? t with
    | some items =>
      if items.length ≤ declared.length && (declared.drop items.length).all (·.defaulted) then
        some (names.zip items)
      else none
    | none => none

def readAll (read : τ → Option α) : List τ → Option (List α)
  | [] => some []
  | t :: rest => do
    let v ← read t
    let vs ← readAll read rest
    return v :: vs

def readEntries {κ : Type} (read : τ → Option α) : List (κ × τ) → Option (List (κ × α))
  | [] => some []
  | (k, t) :: rest => do
    let v ← read t
    let vs ← readEntries read rest
    return (k, v) :: vs

def listOf (read : τ → Option α) (t : τ) : Option (List α) := items? t >>= readAll read

def tableOf (read : τ → Option α) (t : τ) : Option (Table String α) :=
  (entries? t >>= readEntries read).map Table.ofList

/-- Any value, with the repeated keys of its records resolved. -/
def anyJson (t : τ) : Option Json := (json? t).map Json.canonical

def textSet (t : τ) : Option NameSet := (listOf text? t).map NameSet.ofList

def required (entries : List (String × τ)) (key : String) (read : τ → Option α) : Option α :=
  Table.lookup key entries >>= read

/-- Absent where the key is missing or null. -/
def optional (entries : List (String × τ)) (key : String) (read : τ → Option α) :
    Option (Option α) :=
  match Table.lookup key entries with
  | none => some none
  | some t => if isNull t then some none else (read t).map some

def defaulted (entries : List (String × τ)) (key : String) (default : α)
    (read : τ → Option α) : Option α :=
  match Table.lookup key entries with
  | none => some default
  | some t => read t

/-- A record that names its kind under `key`, or first in its list; the kind and what is left. -/
def tagged? (key : String) (t : τ) : Option (String × Content) :=
  match contentEntries? t with
  | some entries =>
    match entries.filter fun e => e.1 == .name key with
    | [(_, kind)] => do
      let kind ← text? kind
      let others ← readEntries content? (entries.filter fun e => e.1 != .name key)
      return (kind, .record others)
    | _ => none
  | none =>
    match items? t with
    | some (first :: rest) => do
      let kind ← text? first
      let others ← readAll content? rest
      return (kind, .list others)
    | _ => none

end SourceTree
end DomainModel
