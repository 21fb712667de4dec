import DomainModel.Json.Writer
import DomainModel.Model.Problem
import DomainModel.Vocabulary.Application
import DomainModel.Vocabulary.Validations
/-!
# Entities, fields and validations

An entity has a table and ordered fields; a field has a type and validations under their names.
Every part lists its own structural problems and has a text in the domain language.
-/
namespace DomainModel

/-- A constraint of a field, such as `required` or `min` with a value. -/
structure Validation where
  name : String
  value : Option Json
  deriving DecidableEq

namespace Validation

def flag (name : String) : Validation := ⟨name, none⟩

/-- The validation meant where none is named. -/
def standard : Validation := flag ValidationName.required

/-- The value as text, strings without quotes. Null and the empty string count as no value. -/
def valueText (v : Validation) : Option String :=
  match v.value with
  | none => none
  | some .null => none
  | some (.text s) => if s = "" then none else some s
  | some value => some value.compact

def problems (v : Validation) : List Problem :=
  if v.name = "" then [.validationUnnamed]
  else if !ValidationName.isKnown v.name then [.validationUnknown v.name]
  else if ValidationName.needsValue v.name && v.valueText.isNone then
    [.validationWithoutValue v.name]
  else []

def text (v : Validation) : String :=
  match v.valueText with
  | none => v.name
  | some value =>
    if v.name = ValidationName.pattern then v.name ++ "(/" ++ value ++ "/)"
    else v.name ++ "(" ++ value ++ ")"

end Validation

structure Field where
  name : String
  type : String
  comment : Option String
  validations : Table String Validation
  deriving DecidableEq

namespace Field

def named (name type : String) : Field := ⟨name, type, none, ∅⟩

/-- Adds the validation or replaces the one of the same name. -/
def addValidation (f : Field) (v : Validation) : Field :=
  { f with validations := f.validations.insert v.name v }

def problems (f : Field) : List Problem :=
  Problem.onlyIf (f.name == "") .fieldUnnamed ++ Problem.onlyIf (f.type == "") .fieldUntyped ++
    Problem.numbered .inValidation (f.validations.values.map Validation.problems)

def text (f : Field) : String :=
  optionalComment f.comment ++ f.name ++ " " ++ f.type ++
    concat (f.validations.values.map fun v => " " ++ v.text)

end Field

structure Entity where
  name : String
  tableName : String
  comment : Option String
  fields : Table String Field
  deriving DecidableEq

namespace Entity

/-- The entity without fields whose table has its name. -/
def named (name : String) : Entity := ⟨name, name, none, ∅⟩

/-- The built-in user entity, which is referred to but never declared. -/
def user : Entity := { named userEntityName with tableName := userTableName }

def isUser (name : String) : Bool := name == userEntityName

/-- Adds the field, or replaces the one of the same name where it stands. -/
def addField (e : Entity) (f : Field) : Entity := { e with fields := e.fields.insert f.name f }

def problems (e : Entity) : List Problem :=
  Problem.onlyIf (e.name == "") .entityUnnamed ++
    Problem.onlyIf (e.tableName == "") .tableUnnamed ++
    Problem.numbered .inField (e.fields.values.map Field.problems)

def headText (e : Entity) : String :=
  "entity " ++ e.name ++ (if e.tableName = e.name then "" else " (" ++ e.tableName ++ ")")

/-- The comment, the head and, if there are any, the fields in braces. -/
def text (e : Entity) : String :=
  optionalComment e.comment ++ e.headText ++
    (if e.fields.isEmpty then ""
      else " \x7b\n" ++ joinWith ",\n" (e.fields.values.map fun f => indented f.text) ++ "\n\x7d")

end Entity
end DomainModel
