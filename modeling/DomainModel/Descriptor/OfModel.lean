import DomainModel.Calendar
import DomainModel.Descriptor.Basic
import DomainModel.Model.Basic
import DomainModel.Text.Casing
/-!
# The descriptors of a model

Each entity becomes a descriptor. A relationship gives an entry to its source, and one to its
destination if a field is injected there or many destinations lead back to one source.
-/
namespace DomainModel

namespace Model

/-- Null and the empty string are not stored as values of validations. -/
def isBlankValue : Json → Bool
  | .null => true
  | .text s => s == ""
  | _ => false

def describeValidation (f : FieldDescriptor) (v : Validation) : FieldDescriptor :=
  let f := { f with rules := f.rules ++ [v.name] }
  match v.value with
  | none => f
  | some value => if isBlankValue value then f else f.setRuleValue v.name value

/-- The field with its comment, the values of its enumeration and its validations; every blob is
filed as bytes with a content. -/
def describeField (m : Model) (f : Field) : FieldDescriptor :=
  let content := FieldType.blobContent? f.type
  let start : FieldDescriptor :=
    { FieldDescriptor.named f.name (if content.isSome then FieldType.byteArray else f.type) with
      comment := f.comment
      blobContent := content
      values := (m.enumerations.find? f.type).map fun e => joinWith "," e.values.names }
  f.validations.values.foldl describeValidation start

end Model

namespace Relationship

/-- The field of the source as written, or one named after the destination. -/
def sourceField (r : Relationship) : InjectedField :=
  .ofText (r.injectedInSource.getD (camelCase r.destination))

/-- The field of the destination as written, or one named after the source. -/
def destinationField (r : Relationship) : InjectedField :=
  match r.injectedInDestination with
  | some field => .ofText field
  | none => ⟨lowerFirst r.source, none⟩

def requiredFlag (required : Option Bool) : Option Bool :=
  if required = some true then some true else none

/-- The entry of the source. -/
def sourceEntry (r : Relationship) : RelationshipDescriptor where
  type := r.cardinality.descriptorWord
  comment := r.commentInSource
  name := r.sourceField.name
  otherEntity := lowerFirst r.destination
  otherField := r.sourceField.displayed <|>
    if r.cardinality = .oneToMany then none else some "id"
  ownerSide := if r.cardinality.hasOwnerSide then some true else none
  otherName := some (lowerFirst r.destinationField.name)
  required := requiredFlag r.requiredInSource
  extra := ∅

def hasDestinationEntry (r : Relationship) : Bool :=
  r.injectedInDestination.isSome || r.cardinality == .oneToMany

/-- The entry of the destination, with the reversed cardinality. -/
def destinationEntry (r : Relationship) : RelationshipDescriptor where
  type := r.cardinality.reversed.descriptorWord
  comment := r.commentInDestination
  name := r.destinationField.name
  otherEntity := lowerFirst r.source
  otherField := r.destinationField.displayed <|>
    if r.cardinality.reversed = .manyToOne then some "id" else none
  ownerSide := if r.cardinality.hasOwnerSide then some false else none
  otherName := some r.sourceField.name
  required := requiredFlag r.requiredInDestination
  extra := ∅

/-- The entries that the relationship gives to an entity. -/
def entriesFor (r : Relationship) (entity : String) : List RelationshipDescriptor :=
  (if r.source = entity then [r.sourceEntry] else []) ++
    (if r.destination = entity ∧ r.hasDestinationEntry = true then [r.destinationEntry] else [])

end Relationship

namespace Model

/-- The value of the first option of this name that applies to the entity. -/
def optionValue? (m : Model) (option entity : String) : Option String :=
  ((m.options.named option).find? fun o => o.appliesTo entity).bind GeneratorOption.value?

def optionEnabled (m : Model) (option entity : String) : Bool :=
  (m.options.named option).any fun o => o.appliesTo entity

def valueOrNo (m : Model) (option entity : String) : Option String :=
  some ((m.optionValue? option entity).getD EntityDescriptor.noValue)

def trueOrAbsent (b : Bool) : Option Bool := if b then some true else none

/-- The base names of the applications that own the entity; without applications all own it. -/
def ownersOf (m : Model) (entity : String) : Owners :=
  if m.applications.isEmpty then .all
  else .named ((m.applications.values.filter fun a => a.entityNames.contains entity).filterMap
    Application.baseName?)

/-- The descriptor of an entity, with a changelog date. -/
def describe (m : Model) (e : Entity) (changelogDate : String) : EntityDescriptor where
  fields := e.fields.values.map m.describeField
  relationships := m.relationships.toList.flatMap fun r => r.entriesFor e.name
  changelogDate := some changelogDate
  comment := e.comment
  tableName := some e.tableName
  dto := m.valueOrNo OptionName.dto e.name
  pagination := m.valueOrNo OptionName.pagination e.name
  service := m.valueOrNo OptionName.service e.name
  searchEngine := m.optionValue? OptionName.searchEngine e.name
  filtering := some (m.optionEnabled OptionName.filter e.name)
  fluentMethods := some (!m.optionEnabled OptionName.noFluentMethod e.name)
  clientRootFolder := m.optionValue? OptionName.clientRootFolder e.name
  owners := some (m.ownersOf e.name)
  microserviceName := m.optionValue? OptionName.microservice e.name
  angularSuffix := m.optionValue? OptionName.angularSuffix e.name
  skipClient := trueOrAbsent (m.optionEnabled OptionName.skipClient e.name)
  skipServer := trueOrAbsent (m.optionEnabled OptionName.skipServer e.name)
  extra := ∅

/-- The descriptors of all entities in order; each changelog date is one second after the one
before it, from `start` on. -/
def toDescriptors (m : Model) (start : Int) : Descriptors :=
  Table.ofList (m.entities.values.zipIdx.map fun (e, i) =>
    (e.name, m.describe e (changelogDate start i)))

end Model
end DomainModel
