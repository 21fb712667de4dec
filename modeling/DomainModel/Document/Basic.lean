import DomainModel.Model.Relationship
import DomainModel.Model.Settings
/-!
# Documents

A document is the tree of declarations that a grammar reads from a text in the domain language.
Names in it are not resolved yet.
-/
namespace DomainModel

/-- Entities chosen by name, by the wildcard, and with exceptions. -/
structure Selection where
  listed : List String
  excluded : List String
  deriving DecidableEq, Repr

namespace Selection

/-- The chosen names; the wildcard stands for every declared name. -/
def choose (s : Selection) (declared : List String) : List String :=
  (if s.listed.contains allEntities then declared else s.listed).filter fun name =>
    !s.excluded.contains name

end Selection

structure DeclaredApplication where
  settings : Settings
  selection : Option Selection
  deriving DecidableEq

/-- A leading comment stands before what it describes, a trailing one after it. -/
inductive CommentForm where
  | leading
  | trailing
  deriving DecidableEq, Repr

structure DeclaredValidation where
  key : String
  value : Option Json
  deriving DecidableEq

structure DeclaredField where
  name : String
  type : String
  validations : List DeclaredValidation
  deriving DecidableEq

/-- What stands in the body of an entity; a separator is the comma between two fields. -/
inductive BodyItem where
  | field (f : DeclaredField)
  | comment (text : String) (form : CommentForm)
  | separator
  deriving DecidableEq

structure DeclaredEntity where
  name : String
  tableName : Option String
  comment : Option String
  body : List BodyItem
  deriving DecidableEq

structure DeclaredEnumeration where
  name : String
  values : List String
  comment : Option String
  deriving DecidableEq, Repr

structure DeclaredEnd where
  name : String
  injectedField : Option String
  comment : Option String
  isRequired : Bool
  deriving DecidableEq, Repr

structure DeclaredRelationship where
  cardinality : Cardinality
  source : DeclaredEnd
  destination : DeclaredEnd
  deriving DecidableEq, Repr

structure DeclaredOption where
  name : String
  value : Option String
  listed : List String
  excluded : List String
  deriving DecidableEq, Repr

structure Document where
  constants : Table String Json
  applications : List DeclaredApplication
  entities : List DeclaredEntity
  enumerations : List DeclaredEnumeration
  relationships : List DeclaredRelationship
  options : List DeclaredOption
  deriving DecidableEq

namespace Document

def empty : Document := ⟨∅, [], [], [], [], []⟩

instance : Inhabited Document := ⟨empty⟩

def entityNames (d : Document) : List String := d.entities.map DeclaredEntity.name

end Document
end DomainModel
