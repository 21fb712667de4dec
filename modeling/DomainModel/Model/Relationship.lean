import DomainModel.Failure
import DomainModel.Model.Problem
import DomainModel.Table
/-!
# Relationships

A relationship leads from one entity to another and injects a field into one end or both. Its
identity is a text; a collection keeps one relationship for each identity, grouped by cardinality.
-/
namespace DomainModel

inductive Cardinality where
  | oneToOne
  | oneToMany
  | manyToOne
  | manyToMany
  deriving DecidableEq, Repr

namespace Cardinality

def all : List Cardinality := [oneToOne, oneToMany, manyToOne, manyToMany]

def word : Cardinality → String
  | oneToOne => "OneToOne"
  | oneToMany => "OneToMany"
  | manyToOne => "ManyToOne"
  | manyToMany => "ManyToMany"

/-- The word of entity descriptors. -/
def descriptorWord : Cardinality → String
  | oneToOne => "one-to-one"
  | oneToMany => "one-to-many"
  | manyToOne => "many-to-one"
  | manyToMany => "many-to-many"

def ofWord? (s : String) : Option Cardinality := all.find? fun c => c.word == s

def ofDescriptorWord? (s : String) : Option Cardinality := all.find? fun c => c.descriptorWord == s

/-- Reads either word. -/
def parse (s : String) : Outcome Cardinality :=
  match ofWord? s <|> ofDescriptorWord? s with
  | some c => .ok c
  | none => .error (.unknownCardinality s)

/-- The cardinality seen from the other end. -/
def reversed : Cardinality → Cardinality
  | oneToMany => manyToOne
  | manyToOne => oneToMany
  | c => c

/-- Whether either end may own the join. -/
def hasOwnerSide : Cardinality → Bool
  | oneToOne => true
  | manyToMany => true
  | _ => false

end Cardinality

structure Relationship where
  cardinality : Cardinality
  source : String
  destination : String
  injectedInSource : Option String
  injectedInDestination : Option String
  requiredInSource : Option Bool
  requiredInDestination : Option Bool
  commentInSource : Option String
  commentInDestination : Option String
  ownerSide : Option Bool
  deriving DecidableEq, Repr

namespace Relationship

def between (cardinality : Cardinality) (source destination : String) : Relationship :=
  ⟨cardinality, source, destination, none, none, none, none, none, none, none⟩

def braced : Option String → String
  | none => ""
  | some field => "\x7b" ++ field ++ "\x7d"

/-- Cardinality and ends, each end followed by its injected field in braces if it has one. -/
def id (r : Relationship) : String :=
  r.cardinality.word ++ "_" ++ r.source ++ braced r.injectedInSource ++ "_" ++ r.destination ++
    braced r.injectedInDestination

def problems (r : Relationship) : List Problem :=
  Problem.onlyIf (r.source == "") .sourceMissing ++
    Problem.onlyIf (r.destination == "") .destinationMissing ++
    Problem.onlyIf (r.injectedInSource.isNone && r.injectedInDestination.isNone)
      .injectedFieldMissing

def endText (field : Option String) (required : Option Bool) : String :=
  match field with
  | none => ""
  | some field => "\x7b" ++ field ++ (if required = some true then " required" else "") ++ "\x7d"

/-- What stands for the relationship in a block: the comment of the second end has its own lines. -/
def memberText (r : Relationship) : String :=
  optionalComment r.commentInSource ++ r.source ++
    endText r.injectedInSource r.requiredInSource ++ " to" ++
    (match r.commentInDestination with
      | none => " "
      | some comment => "\n" ++ commentBlock comment) ++
    r.destination ++ endText r.injectedInDestination r.requiredInDestination

/-- The block of all relationships of one cardinality. -/
def blockText (cardinality : Cardinality) (members : List String) : String :=
  "relationship " ++ cardinality.word ++ " \x7b\n" ++ joinWith ",\n" (members.map indented) ++
    "\n\x7d"

def text (r : Relationship) : String := blockText r.cardinality [r.memberText]

end Relationship

/-- Relationships by cardinality and then by identity, both in order of first addition. -/
structure RelationshipTable where
  groups : Table Cardinality (Table String Relationship)
  deriving DecidableEq

namespace RelationshipTable

def empty : RelationshipTable := ⟨∅⟩

instance : EmptyCollection RelationshipTable := ⟨empty⟩

instance : Inhabited RelationshipTable := ⟨empty⟩

def group (t : RelationshipTable) (cardinality : Cardinality) : Table String Relationship :=
  (t.groups.find? cardinality).getD ∅

/-- Adds the relationship unless its identity is taken; tells whether it was added. -/
def add (t : RelationshipTable) (r : Relationship) : RelationshipTable × Bool :=
  let held := t.group r.cardinality
  if held.contains r.id then (t, false)
  else (⟨t.groups.insert r.cardinality (held.insert r.id r)⟩, true)

def get? (t : RelationshipTable) (id : String) : Option Relationship :=
  t.groups.values.findSome? fun g => g.find? id

def ofCardinality (t : RelationshipTable) (cardinality : Cardinality) : List Relationship :=
  (t.group cardinality).values

def toList (t : RelationshipTable) : List Relationship := t.groups.values.flatMap Table.values

def ids (t : RelationshipTable) : List String := t.toList.map Relationship.id

def size (t : RelationshipTable) : Nat := t.groups.values.foldl (fun n g => n + g.size) 0

def isEmpty (t : RelationshipTable) : Bool := t.size == 0

/-- One block for each cardinality that has members. -/
def blocks (t : RelationshipTable) : List String :=
  (t.groups.entries.filter fun g => !g.2.isEmpty).map fun g =>
    Relationship.blockText g.1 (g.2.values.map Relationship.memberText)

end RelationshipTable
end DomainModel
