import DomainModel.Model.Basic
import DomainModel.Reading
/-!
# The JSON form of the model

Every part of the model is written as a record with all its keys, null standing for an absent
value, and is read back from such a record or from the list of its fields. Options name their kind.
-/
namespace DomainModel
open SourceTree

def Table.toJson {α : Type} (write : α → Json) (t : Table String α) : Json :=
  .record (t.entries.map fun e => (e.1, write e.2))

def NameSet.toJson (s : NameSet) : Json := .texts s.names

namespace Validation

def toJson (v : Validation) : Json :=
  .record [("name", .text v.name), ("value", .orNull v.value)]

def ofJson? (j : Json) : Option Validation := do
  let entries ← fields? [.plain "name", .plain "value"] j
  let name ← required entries "name" text?
  let value ← optional entries "value" anyJson
  return ⟨name, value⟩

end Validation

namespace Field

def toJson (f : Field) : Json :=
  .record [("name", .text f.name), ("type", .text f.type), ("comment", .optionalText f.comment),
    ("validations", f.validations.toJson Validation.toJson)]

def ofJson? (j : Json) : Option Field := do
  let entries ← fields? [.plain "name", .plain "type", .plain "comment", .plain "validations"] j
  let name ← required entries "name" text?
  let type ← required entries "type" text?
  let comment ← optional entries "comment" text?
  let validations ← required entries "validations" (tableOf Validation.ofJson?)
  return ⟨name, type, comment, validations⟩

end Field

namespace Entity

def toJson (e : Entity) : Json :=
  .record [("name", .text e.name), ("table_name", .text e.tableName),
    ("comment", .optionalText e.comment), ("fields", e.fields.toJson Field.toJson)]

def ofJson? (j : Json) : Option Entity := do
  let entries ← fields? [.plain "name", .plain "table_name", .plain "comment", .plain "fields"] j
  let name ← required entries "name" text?
  let tableName ← required entries "table_name" text?
  let comment ← optional entries "comment" text?
  let fields ← required entries "fields" (tableOf Field.ofJson?)
  return ⟨name, tableName, comment, fields⟩

end Entity

namespace Enumeration

def toJson (e : Enumeration) : Json :=
  .record [("name", .text e.name), ("values", e.values.toJson),
    ("comment", .optionalText e.comment)]

def ofJson? (j : Json) : Option Enumeration := do
  let entries ← fields? [.plain "name", .plain "values", .plain "comment"] j
  let name ← required entries "name" text?
  let values ← required entries "values" textSet
  let comment ← optional entries "comment" text?
  return ⟨name, values, comment⟩

end Enumeration

namespace Scope

def toJson (s : Scope) : Json :=
  .record [("entity_names", s.included.toJson), ("excluded_names", s.excluded.toJson)]

def ofTree? {τ : Type} [SourceTree τ] (t : τ) : Option Scope := do
  let entries ← fields? [.plain "entity_names", .plain "excluded_names"] t
  let included ← required entries "entity_names" textSet
  let excluded ← required entries "excluded_names" textSet
  return ⟨included, excluded⟩

def ofJson? (j : Json) : Option Scope := ofTree? j

end Scope

namespace GeneratorOption

def toJson : GeneratorOption → Json
  | unary name scope =>
    .record [("kind", .text "unary"), ("name", .text name), ("scope", scope.toJson)]
  | binary name value scope =>
    .record [("kind", .text "binary"), ("name", .text name), ("value", .text value),
      ("scope", scope.toJson)]

def unaryOfContent? (c : Content) : Option GeneratorOption := do
  let entries ← fields? [.plain "name", .plain "scope"] c
  let name ← required entries "name" text?
  let scope ← required entries "scope" Scope.ofTree?
  return .unary name scope

def binaryOfContent? (c : Content) : Option GeneratorOption := do
  let entries ← fields? [.plain "name", .plain "value", .plain "scope"] c
  let name ← required entries "name" text?
  let value ← required entries "value" text?
  let scope ← required entries "scope" Scope.ofTree?
  return .binary name value scope

def ofJson? (j : Json) : Option GeneratorOption := do
  let (kind, content) ← tagged? "kind" j
  if kind = "unary" then unaryOfContent? content
  else if kind = "binary" then binaryOfContent? content
  else none

end GeneratorOption

namespace OptionTable

def toJson (t : OptionTable) : Json :=
  .record [("options", t.table.toJson GeneratorOption.toJson)]

def ofJson? (j : Json) : Option OptionTable := do
  let entries ← fields? [.plain "options"] j
  let table ← required entries "options" (tableOf GeneratorOption.ofJson?)
  return ⟨table⟩

end OptionTable

/-- A cardinality under its word. -/
def Cardinality.ofTree? {τ : Type} [SourceTree τ] (t : τ) : Option Cardinality :=
  choice? (Cardinality.all.map Cardinality.word) t >>= Cardinality.ofWord?

namespace Relationship

def toJson (r : Relationship) : Json :=
  .record [("relationship_type", .text r.cardinality.word), ("from", .text r.source),
    ("to", .text r.destination),
    ("injected_field_in_from", .optionalText r.injectedInSource),
    ("injected_field_in_to", .optionalText r.injectedInDestination),
    ("is_injected_field_in_from_required", .optionalBool r.requiredInSource),
    ("is_injected_field_in_to_required", .optionalBool r.requiredInDestination),
    ("comment_in_from", .optionalText r.commentInSource),
    ("comment_in_to", .optionalText r.commentInDestination),
    ("owner_side", .optionalBool r.ownerSide)]

def declaredKeys : List DeclaredKey :=
  [.plain "relationship_type", .plain "from", .plain "to", .plain "injected_field_in_from",
    .plain "injected_field_in_to", .plain "is_injected_field_in_from_required",
    .plain "is_injected_field_in_to_required", .plain "comment_in_from", .plain "comment_in_to",
    .plain "owner_side"]

def ofJson? (j : Json) : Option Relationship := do
  let entries ← fields? declaredKeys j
  let cardinality ← required entries "relationship_type" Cardinality.ofTree?
  let source ← required entries "from" text?
  let destination ← required entries "to" text?
  let injectedInSource ← optional entries "injected_field_in_from" text?
  let injectedInDestination ← optional entries "injected_field_in_to" text?
  let requiredInSource ← optional entries "is_injected_field_in_from_required" bool?
  let requiredInDestination ← optional entries "is_injected_field_in_to_required" bool?
  let commentInSource ← optional entries "comment_in_from" text?
  let commentInDestination ← optional entries "comment_in_to" text?
  let ownerSide ← optional entries "owner_side" bool?
  return ⟨cardinality, source, destination, injectedInSource, injectedInDestination,
    requiredInSource, requiredInDestination, commentInSource, commentInDestination, ownerSide⟩

end Relationship

namespace RelationshipTable

def toJson (t : RelationshipTable) : Json :=
  .record [("relationships",
    .record (t.groups.entries.map fun g => (g.1.word, g.2.toJson Relationship.toJson)))]

def groupsOfEntries (entries : List (String × Json)) :
    Option (List (Cardinality × Table String Relationship)) :=
  match entries with
  | [] => some []
  | (word, members) :: rest => do
    let cardinality ← Cardinality.ofWord? word
    let table ← tableOf Relationship.ofJson? members
    let groups ← groupsOfEntries rest
    return (cardinality, table) :: groups

def ofJson? (j : Json) : Option RelationshipTable := do
  let entries ← fields? [.plain "relationships"] j
  let groups ← required entries "relationships" fun g => entries? g >>= groupsOfEntries
  return ⟨Table.ofList groups⟩

end RelationshipTable

namespace Application

def toJson (a : Application) : Json :=
  .record [("config", a.settings.toJson id), ("entity_names", a.entityNames.toJson)]

def ofJson? (j : Json) : Option Application := do
  let entries ← fields? [.plain "config", .plain "entity_names"] j
  let settings ← required entries "config" (tableOf anyJson)
  let names ← required entries "entity_names" textSet
  return ⟨settings, names⟩

end Application

namespace Model

def toJson (m : Model) : Json :=
  .record [("applications", m.applications.toJson Application.toJson),
    ("entities", m.entities.toJson Entity.toJson),
    ("enums", m.enumerations.toJson Enumeration.toJson),
    ("relationships", m.relationships.toJson), ("options", m.options.toJson)]

def ofJson? (j : Json) : Option Model := do
  let entries ← fields? [.plain "applications", .plain "entities", .plain "enums",
    .plain "relationships", .plain "options"] j
  let applications ← required entries "applications" (tableOf Application.ofJson?)
  let entities ← required entries "entities" (tableOf Entity.ofJson?)
  let enumerations ← required entries "enums" (tableOf Enumeration.ofJson?)
  let relationships ← required entries "relationships" RelationshipTable.ofJson?
  let options ← required entries "options" OptionTable.ofJson?
  return ⟨applications, entities, enumerations, relationships, options⟩

end Model
end DomainModel
