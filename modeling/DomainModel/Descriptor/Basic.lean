import DomainModel.Model.InjectedField
import DomainModel.Model.Relationship
import DomainModel.Json.Value
import DomainModel.Vocabulary.Application
import DomainModel.Vocabulary.Validations
/-!
# Entity descriptors

A descriptor states one entity for a generator: its fields, its ends of relationships and its
options. Keys without a meaning here are kept; so are the values of validations, under their own
keys.
-/
namespace DomainModel

structure FieldDescriptor where
  name : String
  type : String
  comment : Option String
  values : Option String
  blobContent : Option String
  rules : List String
  extra : Table String Json
  deriving DecidableEq

namespace FieldDescriptor

def named (name type : String) : FieldDescriptor := ⟨name, type, none, none, none, [], ∅⟩

/-- The value of a validation, if one is stored. -/
def ruleValue? (f : FieldDescriptor) (rule : String) : Option Json :=
  f.extra.find? (ValidationName.descriptorKey rule)

def setRuleValue (f : FieldDescriptor) (rule : String) (value : Json) : FieldDescriptor :=
  { f with extra := f.extra.insert (ValidationName.descriptorKey rule) value }

end FieldDescriptor

/-- One end of a relationship, as the entity that holds it states it. -/
structure RelationshipDescriptor where
  type : String
  comment : Option String
  name : String
  otherEntity : String
  otherField : Option String
  ownerSide : Option Bool
  otherName : Option String
  required : Option Bool
  extra : Table String Json
  deriving DecidableEq

namespace RelationshipDescriptor

def named (type name otherEntity : String) : RelationshipDescriptor :=
  ⟨type, none, name, otherEntity, none, none, none, none, ∅⟩

/-- The key of the older way to say that an end is required. -/
def rulesKey : String := "relationshipValidateRules"

/-- Required by the flag, or by a rule: the rule alone or a list that contains it. -/
def isRequired (r : RelationshipDescriptor) : Bool :=
  r.required == some true ||
    match r.extra.find? rulesKey with
    | some (.text rule) => rule == ValidationName.required
    | some (.list rules) => rules.any fun v => v.text? == some ValidationName.required
    | _ => false

/-- The name of the end, with the displayed field unless that is `id`. -/
def injectedField (r : RelationshipDescriptor) : InjectedField where
  name := r.name
  displayed := r.otherField.filter fun f => f != "id" && f != ""

end RelationshipDescriptor

/-- The applications that own an entity, by their base names. -/
inductive Owners where
  | all
  | named (applications : List String)
  deriving DecidableEq, Repr

namespace Owners

def includes (o : Owners) (application : String) : Bool :=
  match o with
  | all => true
  | named applications => applications.contains application

end Owners

structure EntityDescriptor where
  fields : List FieldDescriptor
  relationships : List RelationshipDescriptor
  changelogDate : Option String
  comment : Option String
  tableName : Option String
  dto : Option String
  pagination : Option String
  service : Option String
  searchEngine : Option String
  filtering : Option Bool
  fluentMethods : Option Bool
  clientRootFolder : Option String
  owners : Option Owners
  microserviceName : Option String
  angularSuffix : Option String
  skipClient : Option Bool
  skipServer : Option Bool
  extra : Table String Json
  deriving DecidableEq

namespace EntityDescriptor

def empty : EntityDescriptor :=
  ⟨[], [], none, none, none, none, none, none, none, none, none, none, none, none, none, none, none,
    ∅⟩

instance : Inhabited EntityDescriptor := ⟨empty⟩

/-- The value that says that an option is not set. -/
def noValue : String := "no"

/-- An option value that is really set: neither empty nor one of the words for nothing. -/
def setValue (value : Option String) : Option String :=
  value.filter fun v => v != "" && v != noValue && v != "false"

/-- Whether the application owns the entity; without a statement every application does. -/
def ownedBy (d : EntityDescriptor) (application : String) : Bool :=
  match d.owners with
  | none => true
  | some o => o.includes application

/-- Whether the entity belongs to the microservice; without a statement it belongs to each. -/
def inMicroservice (d : EntityDescriptor) (application : String) : Bool :=
  match d.microserviceName with
  | none => true
  | some name => name == application

end EntityDescriptor

/-- Descriptors under the names of their entities. -/
abbrev Descriptors := Table String EntityDescriptor

end DomainModel
