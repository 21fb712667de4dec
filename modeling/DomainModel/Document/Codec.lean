import DomainModel.Document.Basic
import DomainModel.Model.Codec
/-!
# The written form of documents

A document is read from any tree. Missing lists are empty, and the items of an entity body name
their kind.
-/
namespace DomainModel
open SourceTree
variable {τ : Type} [SourceTree τ]

namespace Selection

def toJson (s : Selection) : Json :=
  .record [("list", .texts s.listed), ("excluded", .texts s.excluded)]

def ofTree? (t : τ) : Option Selection := do
  let entries ← fields? [.withDefault "list", .withDefault "excluded"] t
  let listed ← defaulted entries "list" [] (listOf text?)
  let excluded ← defaulted entries "excluded" [] (listOf text?)
  return ⟨listed, excluded⟩

end Selection

namespace DeclaredApplication

def toJson (a : DeclaredApplication) : Json :=
  .record [("config", a.settings.toJson id),
    ("entities", .orNull (a.selection.map Selection.toJson))]

def ofTree? (t : τ) : Option DeclaredApplication := do
  let entries ← fields? [.withDefault "config", .withDefault "entities"] t
  let settings ← defaulted entries "config" ∅ (tableOf anyJson)
  let selection ← optional entries "entities" Selection.ofTree?
  return ⟨settings, selection⟩

end DeclaredApplication

namespace CommentForm

def all : List CommentForm := [leading, trailing]

def word : CommentForm → String
  | leading => "leading"
  | trailing => "trailing"

def ofWord? (s : String) : Option CommentForm := all.find? fun f => f.word == s

def ofTree? (t : τ) : Option CommentForm := choice? (all.map word) t >>= ofWord?

end CommentForm

namespace DeclaredValidation

def toJson (v : DeclaredValidation) : Json :=
  .record [("key", .text v.key), ("value", .orNull v.value)]

def ofTree? (t : τ) : Option DeclaredValidation := do
  let entries ← fields? [.plain "key", .withDefault "value"] t
  let key ← required entries "key" text?
  let value ← optional entries "value" anyJson
  return ⟨key, value⟩

end DeclaredValidation

namespace BodyItem

def toJson : BodyItem → Json
  | field f =>
    .record [("kind", .text "field"), ("name", .text f.name), ("type", .text f.type),
      ("validations", .list (f.validations.map DeclaredValidation.toJson))]
  | comment text form =>
    .record [("kind", .text "comment"), ("text", .text text), ("form", .text form.word)]
  | separator => .record [("kind", .text "separator")]

def fieldOfContent? (c : Content) : Option BodyItem := do
  let entries ← fields? [.plain "name", .plain "type", .withDefault "validations"] c
  let name ← required entries "name" text?
  let type ← required entries "type" text?
  let validations ← defaulted entries "validations" [] (listOf DeclaredValidation.ofTree?)
  return .field ⟨name, type, validations⟩

def commentOfContent? (c : Content) : Option BodyItem := do
  let entries ← fields? [.plain "text", .plain "form"] c
  let text ← required entries "text" text?
  let form ← required entries "form" CommentForm.ofTree?
  return .comment text form

/-- A separator has no fields of its own: further keys do not count, further items are wrong. -/
def separatorOfContent? : Content → Option BodyItem
  | .list (_ :: _) => none
  | _ => some .separator

def ofTree? (t : τ) : Option BodyItem := do
  let (kind, content) ← tagged? "kind" t
  if kind = "field" then fieldOfContent? content
  else if kind = "comment" then commentOfContent? content
  else if kind = "separator" then separatorOfContent? content
  else none

end BodyItem

namespace DeclaredEntity

def toJson (e : DeclaredEntity) : Json :=
  .record [("name", .text e.name), ("tableName", .optionalText e.tableName),
    ("javadoc", .optionalText e.comment), ("body", .list (e.body.map BodyItem.toJson))]

def ofTree? (t : τ) : Option DeclaredEntity := do
  let entries ← fields? [.plain "name", .withDefault "tableName", .withDefault "javadoc",
    .withDefault "body"] t
  let name ← required entries "name" text?
  let tableName ← optional entries "tableName" text?
  let comment ← optional entries "javadoc" text?
  let body ← defaulted entries "body" [] (listOf BodyItem.ofTree?)
  return ⟨name, tableName, comment, body⟩

end DeclaredEntity

namespace DeclaredEnumeration

def toJson (e : DeclaredEnumeration) : Json :=
  .record [("name", .text e.name), ("values", .texts e.values),
    ("javadoc", .optionalText e.comment)]

def ofTree? (t : τ) : Option DeclaredEnumeration := do
  let entries ← fields? [.plain "name", .withDefault "values", .withDefault "javadoc"] t
  let name ← required entries "name" text?
  let values ← defaulted entries "values" [] (listOf text?)
  let comment ← optional entries "javadoc" text?
  return ⟨name, values, comment⟩

end DeclaredEnumeration

namespace DeclaredEnd

def toJson (e : DeclaredEnd) : Json :=
  .record [("name", .text e.name), ("injectedField", .optionalText e.injectedField),
    ("javadoc", .optionalText e.comment), ("required", .bool e.isRequired)]

def ofTree? (t : τ) : Option DeclaredEnd := do
  let entries ← fields? [.plain "name", .withDefault "injectedField", .withDefault "javadoc",
    .withDefault "required"] t
  let name ← required entries "name" text?
  let injectedField ← optional entries "injectedField" text?
  let comment ← optional entries "javadoc" text?
  let isRequired ← defaulted entries "required" false bool?
  return ⟨name, injectedField, comment, isRequired⟩

end DeclaredEnd

namespace DeclaredRelationship

def toJson (r : DeclaredRelationship) : Json :=
  .record [("cardinality", .text r.cardinality.word), ("from", r.source.toJson),
    ("to", r.destination.toJson)]

def ofTree? (t : τ) : Option DeclaredRelationship := do
  let entries ← fields? [.plain "cardinality", .plain "from", .plain "to"] t
  let cardinality ← required entries "cardinality" Cardinality.ofTree?
  let source ← required entries "from" DeclaredEnd.ofTree?
  let destination ← required entries "to" DeclaredEnd.ofTree?
  return ⟨cardinality, source, destination⟩

end DeclaredRelationship

namespace DeclaredOption

def toJson (o : DeclaredOption) : Json :=
  .record [("name", .text o.name), ("value", .optionalText o.value), ("list", .texts o.listed),
    ("excluded", .texts o.excluded)]

def ofTree? (t : τ) : Option DeclaredOption := do
  let entries ← fields? [.plain "name", .withDefault "value", .withDefault "list",
    .withDefault "excluded"] t
  let name ← required entries "name" text?
  let value ← optional entries "value" text?
  let listed ← defaulted entries "list" [] (listOf text?)
  let excluded ← defaulted entries "excluded" [] (listOf text?)
  return ⟨name, value, listed, excluded⟩

end DeclaredOption

namespace Document

def toJson (d : Document) : Json :=
  .record [("constants", d.constants.toJson id),
    ("applications", .list (d.applications.map DeclaredApplication.toJson)),
    ("entities", .list (d.entities.map DeclaredEntity.toJson)),
    ("enums", .list (d.enumerations.map DeclaredEnumeration.toJson)),
    ("relationships", .list (d.relationships.map DeclaredRelationship.toJson)),
    ("options", .list (d.options.map DeclaredOption.toJson))]

def ofTree? (t : τ) : Option Document := do
  let entries ← fields? [.withDefault "constants", .withDefault "applications",
    .withDefault "entities", .withDefault "enums", .withDefault "relationships",
    .withDefault "options"] t
  let constants ← defaulted entries "constants" ∅ (tableOf anyJson)
  let applications ← defaulted entries "applications" [] (listOf DeclaredApplication.ofTree?)
  let entities ← defaulted entries "entities" [] (listOf DeclaredEntity.ofTree?)
  let enumerations ← defaulted entries "enums" [] (listOf DeclaredEnumeration.ofTree?)
  let relationships ← defaulted entries "relationships" [] (listOf DeclaredRelationship.ofTree?)
  let options ← defaulted entries "options" [] (listOf DeclaredOption.ofTree?)
  return ⟨constants, applications, entities, enumerations, relationships, options⟩

end Document
end DomainModel
