import DomainModel.Text.Lines
/-!
# Problems of model parts

What can be structurally wrong with a part of the model, and how it is told. A problem inside a
field or validation names its place, counted from one.
-/
namespace DomainModel

inductive Problem where
  | validationUnnamed
  | validationUnknown (name : String)
  | validationWithoutValue (name : String)
  | fieldUnnamed
  | fieldUntyped
  | entityUnnamed
  | tableUnnamed
  | enumerationUnnamed
  | optionUnnamed
  | optionWithoutEntities
  | optionWithoutValue
  | sourceMissing
  | destinationMissing
  | injectedFieldMissing
  | baseNameMissing
  | authenticationMissing
  | buildToolMissing
  | buildToolUnknown (tool : String)
  | nativeLanguageMissing
  | jwtSecretMissing
  | rememberMeKeyMissing
  | clientNotSkipped
  | inValidation (number : Nat) (p : Problem)
  | inField (number : Nat) (p : Problem)
  deriving DecidableEq, Repr

namespace Problem

def text : Problem → String
  | validationUnnamed => "No validation name"
  | validationUnknown name => "Wrong validation name '" ++ name ++ "'"
  | validationWithoutValue name => "No value for validation '" ++ name ++ "'"
  | fieldUnnamed => "No field name"
  | fieldUntyped => "No field type"
  | entityUnnamed => "No entity name"
  | tableUnnamed => "No table name"
  | enumerationUnnamed => "No enumeration name"
  | optionUnnamed => "No option name"
  | optionWithoutEntities => "No entity names"
  | optionWithoutValue => "No option value"
  | sourceMissing => "No source entity"
  | destinationMissing => "No destination entity"
  | injectedFieldMissing => "No injected field in source or destination"
  | baseNameMissing => "No base name"
  | authenticationMissing => "No authentication type"
  | buildToolMissing => "No build tool"
  | buildToolUnknown tool => "Unknown build tool '" ++ tool ++ "'"
  | nativeLanguageMissing => "No native language"
  | jwtSecretMissing => "No JWT secret key"
  | rememberMeKeyMissing => "No remember-me key"
  | clientNotSkipped => "Microservice and UAA applications must skip the client"
  | inValidation number p => "For validation #" ++ toString number ++ ": " ++ p.text
  | inField number p => "For field #" ++ toString number ++ ": " ++ p.text

/-- The problem if the condition holds. -/
def onlyIf (condition : Bool) (p : Problem) : List Problem := if condition then [p] else []

/-- The problems of the parts, each with the number of its part, counted from one. -/
def numbered (place : Nat → Problem → Problem) (parts : List (List Problem)) : List Problem :=
  (parts.zipIdx 1).flatMap fun part => part.1.map (place part.2)

end Problem
end DomainModel
