import DomainModel.Descriptor.Pairing
import DomainModel.Model.Basic
/-!
# The model that descriptors state

Enumerations and entities come first, then the paired relationships, then the options, each folded
over all entities that set it.
-/
namespace DomainModel

/-- The values of an enumeration written with commas; blanks around them and empty ones go. -/
def enumerationValues (s : String) : List String :=
  (((piecesBetween ',' s.toList).map trimChars).filter fun v => !v.isEmpty).map String.ofList

namespace FieldDescriptor

/-- The type of the field in the model: the blob type where bytes are filed. -/
def modelType (f : FieldDescriptor) : String :=
  if f.type = FieldType.byteArray then
    (f.blobContent.bind FieldType.ofBlobContent?).getD FieldType.blob
  else f.type

def toField (f : FieldDescriptor) : Field :=
  f.rules.foldl (fun field rule => field.addValidation ⟨rule, f.ruleValue? rule⟩)
    { Field.named f.name f.modelType with comment := f.comment }

/-- The enumeration that a field with values declares. -/
def enumeration? (f : FieldDescriptor) : Option Enumeration :=
  f.values.map fun values => Enumeration.named f.type (enumerationValues values)

end FieldDescriptor

namespace EntityDescriptor

def toEntity (name : String) (d : EntityDescriptor) : Entity :=
  d.fields.foldl (fun e f => e.addField f.toField)
    { Entity.named name with
      tableName := (d.tableName.filter fun t => t != "").getD name
      comment := d.comment }

def enumerations (d : EntityDescriptor) : List Enumeration :=
  d.fields.filterMap FieldDescriptor.enumeration?

/-- The binary options that the descriptor sets, with their values. -/
def binaryOptions (d : EntityDescriptor) : List (String × String) :=
  [(OptionName.dto, d.dto), (OptionName.service, d.service),
    (OptionName.pagination, d.pagination), (OptionName.searchEngine, d.searchEngine),
    (OptionName.microservice, d.microserviceName), (OptionName.angularSuffix, d.angularSuffix),
    (OptionName.clientRootFolder, d.clientRootFolder)].filterMap fun o =>
      (setValue o.2).map fun value => (o.1, value)

/-- The unary options that the descriptor sets. -/
def unaryOptions (d : EntityDescriptor) : List String :=
  ([(OptionName.noFluentMethod, d.fluentMethods == some false),
    (OptionName.filter, d.filtering == some true),
    (OptionName.skipClient, d.skipClient == some true),
    (OptionName.skipServer, d.skipServer == some true)].filter Prod.snd).map Prod.fst

end EntityDescriptor

namespace Model

/-- Adds an option for one entity alone. -/
def addOptionFor (m : Model) (entity : String) (o : GeneratorOption) : Outcome Model :=
  m.addOption (o.withIncluded [entity])

/-- Adds the options that the descriptor of an entity sets. -/
def foldOptions (m : Model) (entity : String) (d : EntityDescriptor) : Outcome Model := do
  let m ← d.binaryOptions.foldlM (fun m o => do
    m.addOptionFor entity (← GeneratorOption.ofValue o.1 o.2)) m
  d.unaryOptions.foldlM (fun m name => do
    m.addOptionFor entity (← GeneratorOption.ofFlag name)) m

def addDescribed (m : Model) (entity : String) (d : EntityDescriptor) : Outcome Model := do
  let m ← d.enumerations.foldlM addEnumeration m
  m.addEntity (d.toEntity entity)

end Model

namespace Descriptors

/-- An entity named like the user entity needs the option that leaves out user management. -/
def checkUser (entities : Descriptors) (m : Model) : Outcome Unit :=
  if entities.contains userEntityName && (m.options.named OptionName.skipUserManagement).isEmpty
  then .error .reservedUser
  else .ok ()

/-- Adds what the descriptors state to `m`. -/
def toModelFrom (entities : Descriptors) (m : Model) : Outcome Model := do
  checkUser entities m
  let m ← entities.entries.foldlM (fun m e => m.addDescribed e.1 e.2) m
  let m ← (pairRelationships entities).foldlM Model.addRelationship m
  entities.entries.foldlM (fun m e => m.foldOptions e.1 e.2) m

def toModel (entities : Descriptors) : Outcome Model := toModelFrom entities ∅

end Descriptors

/-- The flags of a generator configuration that become options over every entity. -/
def serverFlags : List String :=
  [OptionName.skipClient, OptionName.skipServer, OptionName.skipUserManagement]

/-- The model of a generator configuration: the options of its flags that are true. -/
def Model.ofGeneratorSettings (settings : Settings) : Outcome Model :=
  (serverFlags.filter fun name => settings.bool? name == some true).foldlM
    (fun m name => do m.addOption (← GeneratorOption.ofFlag name)) ∅

end DomainModel
