import DomainModel.Model.Problem
import DomainModel.Table
/-!
# Enumerations

A closed set of values, usable as the type of a field.
-/
namespace DomainModel

structure Enumeration where
  name : String
  values : NameSet
  comment : Option String
  deriving DecidableEq

namespace Enumeration

def named (name : String) (values : List String) : Enumeration :=
  ⟨name, NameSet.ofList values, none⟩

def addValue (e : Enumeration) (value : String) : Enumeration :=
  { e with values := e.values.insert value }

def problems (e : Enumeration) : List Problem := Problem.onlyIf (e.name == "") .enumerationUnnamed

def text (e : Enumeration) : String :=
  optionalComment e.comment ++ "enum " ++ e.name ++ " \x7b\n  " ++
    joinWith ",\n  " e.values.names ++ "\n\x7d"

end Enumeration
end DomainModel
