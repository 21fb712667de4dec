import DomainModel.Failure
import DomainModel.Model.Problem
import DomainModel.Table
import DomainModel.Vocabulary.Application
import DomainModel.Vocabulary.Options
/-!
# Generator options and their scopes

A scope selects entities by name, all of them with the wildcard, and may exclude some. An option is
a flag or carries a value. In a collection, options of one key merge their scopes.
-/
namespace DomainModel

structure Scope where
  included : NameSet
  excluded : NameSet
  deriving DecidableEq

namespace Scope

/-- Every entity, none excluded. -/
def all : Scope := ⟨NameSet.singleton allEntities, ∅⟩

instance : Inhabited Scope := ⟨all⟩

def isWildcard (s : Scope) : Bool := s.included.names == [allEntities]

/-- Adds a name; the first name beside the lone wildcard takes its place. Empty names are refused.
The answer tells whether the name was new. -/
def addName (s : Scope) (name : String) : Scope × Bool :=
  if name = "" then (s, false)
  else
    let before := if s.isWildcard && name != allEntities then ∅ else s.included
    ({ s with included := before.insert name }, !before.contains name)

def excludeName (s : Scope) (name : String) : Scope × Bool :=
  if name = "" then (s, false)
  else ({ s with excluded := s.excluded.insert name }, !s.excluded.contains name)

/-- Adds the names of `other` to both sides. -/
def merge (s other : Scope) : Scope where
  included := s.included.insertAll other.included.names
  excluded := s.excluded.insertAll other.excluded.names

def appliesTo (s : Scope) (name : String) : Bool :=
  !s.excluded.contains name && (s.included.contains allEntities || s.included.contains name)

def includedText (s : Scope) : String := joinWith ", " s.included.names

def excludedText (s : Scope) : String :=
  if s.excluded.isEmpty then "" else " except " ++ joinWith ", " s.excluded.names

end Scope

inductive GeneratorOption where
  | unary (name : String) (scope : Scope)
  | binary (name value : String) (scope : Scope)
  deriving DecidableEq

namespace GeneratorOption

/-- A flag over every entity; the name must be that of a unary option. -/
def ofFlag (name : String) : Outcome GeneratorOption :=
  if OptionName.isUnary name then .ok (.unary name Scope.all) else .error (.unknownOption name)

/-- A binary option over every entity; the value must be legal for it. -/
def ofValue (name value : String) : Outcome GeneratorOption :=
  if !OptionName.isBinary name then .error (.unknownOption name)
  else if !OptionName.isLegalValue name value then .error (.illegalOptionValue value name)
  else .ok (.binary name value Scope.all)

def name : GeneratorOption → String
  | unary name _ => name
  | binary name _ _ => name

def value? : GeneratorOption → Option String
  | unary _ _ => none
  | binary _ value _ => some value

def scope : GeneratorOption → Scope
  | unary _ scope => scope
  | binary _ _ scope => scope

def withScope (o : GeneratorOption) (scope : Scope) : GeneratorOption :=
  match o with
  | unary name _ => unary name scope
  | binary name value _ => binary name value scope

def withIncluded (o : GeneratorOption) (names : List String) : GeneratorOption :=
  o.withScope { o.scope with included := NameSet.ofList names }

def withExcluded (o : GeneratorOption) (names : List String) : GeneratorOption :=
  o.withScope { o.scope with excluded := NameSet.ofList names }

def isUnary : GeneratorOption → Bool
  | unary _ _ => true
  | binary _ _ _ => false

def appliesTo (o : GeneratorOption) (name : String) : Bool := o.scope.appliesTo name

/-- The key in a collection: the name, and for a binary option also the value. -/
def key : GeneratorOption → String
  | unary name _ => name
  | binary name value _ => name ++ "_" ++ value

def problems (o : GeneratorOption) : List Problem :=
  Problem.onlyIf (o.name == "") .optionUnnamed ++
    Problem.onlyIf o.scope.included.isEmpty .optionWithoutEntities ++
    Problem.onlyIf (o.value? == some "") .optionWithoutValue

def text : GeneratorOption → String
  | unary name scope => name ++ " " ++ scope.includedText ++ scope.excludedText
  | binary name value scope =>
    OptionName.toKeyword name ++ " " ++ scope.includedText ++ " with " ++ value ++
      scope.excludedText

end GeneratorOption

/-- Options under their keys, in order of first addition. -/
structure OptionTable where
  table : Table String GeneratorOption
  deriving DecidableEq

namespace OptionTable

def empty : OptionTable := ⟨∅⟩

instance : EmptyCollection OptionTable := ⟨empty⟩

instance : Inhabited OptionTable := ⟨empty⟩

/-- Adds the option, or merges its scope into the option with its key. -/
def add (t : OptionTable) (o : GeneratorOption) : OptionTable :=
  match t.table.find? o.key with
  | some held => ⟨t.table.insert o.key (held.withScope (held.scope.merge o.scope))⟩
  | none => ⟨t.table.insert o.key o⟩

def get? (t : OptionTable) (key : String) : Option GeneratorOption := t.table.find? key

def contains (t : OptionTable) (key : String) : Bool := t.table.contains key

def toList (t : OptionTable) : List GeneratorOption := t.table.values

def named (t : OptionTable) (name : String) : List GeneratorOption :=
  t.toList.filter fun o => o.name == name

def size (t : OptionTable) : Nat := t.table.size

def isEmpty (t : OptionTable) : Bool := t.table.isEmpty

end OptionTable
end DomainModel
