import DomainModel.Text.Lines
/-!
# Failures and their reports

A failure says what went wrong; its report is the category and the message that a user sees.
-/
namespace DomainModel

inductive Category where
  | argument
  | validation
  | illegalOption
  | illegalName
  | fileAccess
  | wrongType
  | storage
  | format
  deriving DecidableEq, Repr

namespace Category

def heading : Category → String
  | .argument => "argument error: "
  | .validation => "validation error: "
  | .illegalOption => "illegal option: "
  | .illegalName => "illegal name: "
  | .fileAccess => "file access error: "
  | .wrongType => "wrong type: "
  | .storage => "io error: "
  | .format => "serialization error: "

end Category

structure Report where
  category : Category
  message : String
  deriving DecidableEq, Repr

namespace Report

def text (r : Report) : String := r.category.heading ++ r.message

/-- The report of a model part that was refused, with everything found wrong in it. -/
def invalidMember (kind : String) (problems : List String) : Report where
  category := .validation
  message := "The " ++ kind ++ " must be valid in order to be added.\nErrors: " ++
    joinWith ", " problems

end Report

inductive Failure where
  | documentMissing
  | applicationNameMissing
  | exportPathMissing
  | exportApplicationsMissing
  | entityNameEmpty
  | filePathEmpty
  | directoryPathEmpty
  | unknownApplicationType (word : String)
  | unknownAuthenticationType (word : String)
  | unknownDatabaseType (word : String)
  | unknownCardinality (word : String)
  | invalidMember (kind : String) (problems : List String)
  | undeclaredEnd (source destination name : String)
  | undeclaredInOption (name option : String)
  | undeclaredInApplication (name application : String)
  | unknownOption (name : String)
  | illegalOptionValue (value option : String)
  | optionRefusedByDatabase (reason : String)
  | reservedUser
  | pathIsDirectory (path : String)
  | pathIsNoDirectory (path : String)
  | fileMissing (path : String)
  | fileNotJson (path : String)
  | directoryMissing (path : String)
  | unknownFieldType (type field entity : String)
  | storage
  | format
  deriving DecidableEq, Repr

namespace Failure

/-- Failures of the store and of texts in a wrong format carry no message. -/
def report : Failure → Report
  | documentMissing => ⟨.argument, "The parsed JDL content must be passed."⟩
  | applicationNameMissing =>
    ⟨.argument, "The application name must be passed to parse a microservice JDL."⟩
  | exportPathMissing => ⟨.argument, "A path must be passed to export to JDL."⟩
  | exportApplicationsMissing =>
    ⟨.argument, "Applications have to be passed to export entities in applications."⟩
  | entityNameEmpty => ⟨.argument, "The passed entity name must not be nil."⟩
  | filePathEmpty => ⟨.argument, "The passed file path must not be nil."⟩
  | directoryPathEmpty => ⟨.argument, "The app directory must be passed."⟩
  | unknownApplicationType word =>
    ⟨.validation, "Unknown application type '" ++ word ++ "'."⟩
  | unknownAuthenticationType word =>
    ⟨.validation, "Unknown authentication type '" ++ word ++ "'."⟩
  | unknownDatabaseType word => ⟨.validation, "Unknown database type '" ++ word ++ "'."⟩
  | unknownCardinality word => ⟨.validation, "Unknown relationship type '" ++ word ++ "'."⟩
  | invalidMember kind problems => .invalidMember kind problems
  | undeclaredEnd source destination name =>
    ⟨.validation, "In the relationship between " ++ source ++ " and " ++ destination ++ ", " ++
      name ++ " is not declared."⟩
  | undeclaredInOption name option =>
    ⟨.validation, "The entity '" ++ name ++ "' in the '" ++ option ++ "' option isn't declared."⟩
  | undeclaredInApplication name application =>
    ⟨.validation,
      "The entity '" ++ name ++ "' in the application '" ++ application ++ "' isn't declared."⟩
  | unknownOption name =>
    ⟨.illegalOption, "The option's name must be valid, got '" ++ name ++ "'."⟩
  | illegalOptionValue value option =>
    ⟨.illegalOption, "The option's name and value must be valid, got value '" ++ value ++
      "' for '" ++ option ++ "'."⟩
  | optionRefusedByDatabase reason => ⟨.illegalOption, reason⟩
  | reservedUser =>
    ⟨.illegalName, "User entity name is reserved if skipUserManagement is not set."⟩
  | pathIsDirectory path =>
    ⟨.fileAccess, "The path '" ++ path ++ "' must not be a directory."⟩
  | pathIsNoDirectory path => ⟨.fileAccess, "The path '" ++ path ++ "' must be a directory."⟩
  | fileMissing path =>
    ⟨.fileAccess, "The passed file '" ++ path ++ "' must exist and must not be a directory."⟩
  | fileNotJson path =>
    ⟨.fileAccess, "The passed file '" ++ path ++ "' must have the json extension."⟩
  | directoryMissing path =>
    ⟨.fileAccess, "The passed directory '" ++ path ++ "' must exist and must be a directory."⟩
  | unknownFieldType type field entity =>
    ⟨.wrongType, "The type '" ++ type ++ "' is an unknown field type for field '" ++ field ++
      "' of entity '" ++ entity ++ "'."⟩
  | storage => ⟨.storage, ""⟩
  | format => ⟨.format, ""⟩

def message (f : Failure) : String := f.report.message

end Failure

/-- Outcomes of the operations of this library. -/
abbrev Outcome (α : Type) := Except Failure α

/-- A text or value in a wrong format is a failure without further detail. -/
def Outcome.ofReading {α : Type} : Option α → Outcome α
  | some v => .ok v
  | none => .error .format

end DomainModel
