import DomainModel.Descriptor.Basic
import DomainModel.Model.Codec
/-!
# The JSON form of descriptors

Known keys are written in a fixed order, absent ones are left out, and the other keys follow as they
came. Only records are read; a known key may stand once.
-/
namespace DomainModel
open SourceTree

namespace Json

def presentText (key : String) (s : Option String) : List (String × Json) :=
  match s with
  | none => []
  | some s => [(key, .text s)]

def presentBool (key : String) (b : Option Bool) : List (String × Json) :=
  match b with
  | none => []
  | some b => [(key, .bool b)]

/-- The entries of a record in which no known key is repeated. -/
def knownEntries? (known : List String) : Json → Option (List (String × Json))
  | .record entries => if known.all (standsOnce entries) then some entries else none
  | _ => none

/-- The entries under other keys. -/
def otherEntries (known : List String) (entries : List (String × Json)) : Table String Json :=
  Table.ofList ((entries.filter fun e => !known.contains e.1).map fun e => (e.1, e.2.canonical))

end Json

namespace FieldDescriptor

def knownKeys : List String :=
  ["fieldName", "fieldType", "javadoc", "fieldValues", "fieldTypeBlobContent",
    "fieldValidateRules"]

def toJson (f : FieldDescriptor) : Json :=
  .record ([("fieldName", .text f.name), ("fieldType", .text f.type)] ++
    Json.presentText "javadoc" f.comment ++ Json.presentText "fieldValues" f.values ++
    Json.presentText "fieldTypeBlobContent" f.blobContent ++
    (if f.rules.isEmpty then [] else [("fieldValidateRules", .texts f.rules)]) ++
    f.extra.entries)

def ofJson? (j : Json) : Option FieldDescriptor := do
  let entries ← j.knownEntries? knownKeys
  let name ← SourceTree.required entries "fieldName" text?
  let type ← SourceTree.required entries "fieldType" text?
  let comment ← optional entries "javadoc" text?
  let values ← optional entries "fieldValues" text?
  let blobContent ← optional entries "fieldTypeBlobContent" text?
  let rules ← defaulted entries "fieldValidateRules" [] (listOf text?)
  return ⟨name, type, comment, values, blobContent, rules, Json.otherEntries knownKeys entries⟩

end FieldDescriptor

namespace RelationshipDescriptor

def knownKeys : List String :=
  ["relationshipType", "javadoc", "relationshipName", "otherEntityName", "otherEntityField",
    "ownerSide", "otherEntityRelationshipName", "required"]

def toJson (r : RelationshipDescriptor) : Json :=
  .record ([("relationshipType", .text r.type)] ++ Json.presentText "javadoc" r.comment ++
    [("relationshipName", .text r.name), ("otherEntityName", .text r.otherEntity)] ++
    Json.presentText "otherEntityField" r.otherField ++
    Json.presentBool "ownerSide" r.ownerSide ++
    Json.presentText "otherEntityRelationshipName" r.otherName ++
    Json.presentBool "required" r.required ++ r.extra.entries)

def ofJson? (j : Json) : Option RelationshipDescriptor := do
  let entries ← j.knownEntries? knownKeys
  let type ← SourceTree.required entries "relationshipType" text?
  let comment ← optional entries "javadoc" text?
  let name ← SourceTree.required entries "relationshipName" text?
  let otherEntity ← SourceTree.required entries "otherEntityName" text?
  let otherField ← optional entries "otherEntityField" text?
  let ownerSide ← optional entries "ownerSide" bool?
  let otherName ← optional entries "otherEntityRelationshipName" text?
  let isRequired ← optional entries "required" bool?
  return ⟨type, comment, name, otherEntity, otherField, ownerSide, otherName, isRequired,
    Json.otherEntries knownKeys entries⟩

end RelationshipDescriptor

namespace Owners

def toJson : Owners → Json
  | all => .text allEntities
  | named applications => .texts applications

/-- The wildcard, one name alone, or a list of names. -/
def ofJson? : Json → Option Owners
  | .text s => some (if s = allEntities then all else named [s])
  | .list items => (readAll Json.text? items).map named
  | _ => none

end Owners

namespace EntityDescriptor

def knownKeys : List String :=
  ["fields", "relationships", "changelogDate", "javadoc", "entityTableName", "dto", "pagination",
    "service", "searchEngine", "jpaMetamodelFiltering", "fluentMethods", "clientRootFolder",
    "applications", "microserviceName", "angularSuffix", "skipClient", "skipServer"]

def ownersEntry (o : Option Owners) : List (String × Json) :=
  match o with
  | none => []
  | some o => [("applications", o.toJson)]

def toJson (d : EntityDescriptor) : Json :=
  .record ([("fields", .list (d.fields.map FieldDescriptor.toJson)),
      ("relationships", .list (d.relationships.map RelationshipDescriptor.toJson))] ++
    Json.presentText "changelogDate" d.changelogDate ++ Json.presentText "javadoc" d.comment ++
    Json.presentText "entityTableName" d.tableName ++ Json.presentText "dto" d.dto ++
    Json.presentText "pagination" d.pagination ++ Json.presentText "service" d.service ++
    Json.presentText "searchEngine" d.searchEngine ++
    Json.presentBool "jpaMetamodelFiltering" d.filtering ++
    Json.presentBool "fluentMethods" d.fluentMethods ++
    Json.presentText "clientRootFolder" d.clientRootFolder ++ ownersEntry d.owners ++
    Json.presentText "microserviceName" d.microserviceName ++
    Json.presentText "angularSuffix" d.angularSuffix ++
    Json.presentBool "skipClient" d.skipClient ++ Json.presentBool "skipServer" d.skipServer ++
    d.extra.entries)

def ofJson? (j : Json) : Option EntityDescriptor := do
  let entries ← j.knownEntries? knownKeys
  let fields ← defaulted entries "fields" [] (listOf FieldDescriptor.ofJson?)
  let relationships ←
    defaulted entries "relationships" [] (listOf RelationshipDescriptor.ofJson?)
  let changelogDate ← optional entries "changelogDate" text?
  let comment ← optional entries "javadoc" text?
  let tableName ← optional entries "entityTableName" text?
  let dto ← optional entries "dto" text?
  let pagination ← optional entries "pagination" text?
  let service ← optional entries "service" text?
  let searchEngine ← optional entries "searchEngine" text?
  let filtering ← optional entries "jpaMetamodelFiltering" bool?
  let fluentMethods ← optional entries "fluentMethods" bool?
  let clientRootFolder ← optional entries "clientRootFolder" text?
  let owners ← optional entries "applications" Owners.ofJson?
  let microserviceName ← optional entries "microserviceName" text?
  let angularSuffix ← optional entries "angularSuffix" text?
  let skipClient ← optional entries "skipClient" bool?
  let skipServer ← optional entries "skipServer" bool?
  return ⟨fields, relationships, changelogDate, comment, tableName, dto, pagination, service,
    searchEngine, filtering, fluentMethods, clientRootFolder, owners, microserviceName,
    angularSuffix, skipClient, skipServer, Json.otherEntries knownKeys entries⟩

/-- Reads the text of a descriptor file. -/
def parse (s : String) : Outcome EntityDescriptor :=
  Outcome.ofReading ((Json.parse s).bind ofJson?)

end EntityDescriptor

def Descriptors.ofJson? (j : Json) : Option Descriptors := tableOf EntityDescriptor.ofJson? j

def Descriptors.toJson (d : Descriptors) : Json := Table.toJson EntityDescriptor.toJson d

end DomainModel
