import DomainModel.Model.Entity
import DomainModel.Model.Enumeration
import DomainModel.Model.Option
import DomainModel.Model.Relationship
import DomainModel.Model.Settings
/-!
# The model

A model holds applications, entities, enumerations, relationships and options. A part is added only
if it has no structural problem; its text is the model in the domain language.
-/
namespace DomainModel

structure Model where
  applications : Table String Application
  entities : Table String Entity
  enumerations : Table String Enumeration
  relationships : RelationshipTable
  options : OptionTable
  deriving DecidableEq

namespace Model

def empty : Model := ⟨∅, ∅, ∅, ∅, ∅⟩

instance : EmptyCollection Model := ⟨empty⟩

instance : Inhabited Model := ⟨empty⟩

/-- Passes where nothing is wrong with the part. -/
def check (kind : String) (problems : List Problem) : Outcome Unit :=
  if problems.isEmpty then .ok ()
  else .error (.invalidMember kind (problems.map Problem.text))

/-- Adds the application under its base name, in the place of one with that name. -/
def addApplication (m : Model) (a : Application) : Outcome Model := do
  check "application" a.problems
  return { m with applications := m.applications.insert (a.baseName?.getD "") a }

/-- Adds the entity, or replaces the one of its name as a whole. -/
def addEntity (m : Model) (e : Entity) : Outcome Model := do
  check "entity" e.problems
  return { m with entities := m.entities.insert e.name e }

def addEnumeration (m : Model) (e : Enumeration) : Outcome Model := do
  check "enum" e.problems
  return { m with enumerations := m.enumerations.insert e.name e }

/-- Adds the relationship; one with the same identity stays as it is. -/
def addRelationship (m : Model) (r : Relationship) : Outcome Model := do
  check "relationship" r.problems
  return { m with relationships := (m.relationships.add r).1 }

/-- Adds the option, or merges its scope into the option with its key. -/
def addOption (m : Model) (o : GeneratorOption) : Outcome Model := do
  check "option" o.problems
  return { m with options := m.options.add o }

def entityNames (m : Model) : List String := m.entities.keys

def hasEntity (m : Model) (name : String) : Bool := m.entities.contains name

def hasEnumeration (m : Model) (name : String) : Bool := m.enumerations.contains name

/-- Whether a microservice option covers the entity, by its name or by the wildcard. -/
def inMicroservice (m : Model) (entity : String) : Bool :=
  (m.options.named OptionName.microservice).any fun o => o.appliesTo entity

/-- The texts of a section, each followed by a line feed. -/
def sectionText (parts : List String) : String := concat (parts.map (· ++ "\n"))

/-- The same, followed by an empty line unless the section is empty. -/
def spacedSection (parts : List String) (isEmpty : Bool) : String :=
  if isEmpty then "" else sectionText parts ++ "\n"

/-- Applications, entities, enumerations, relationships and options, in this order. -/
def text (m : Model) : String :=
  spacedSection (m.applications.values.map Application.text) m.applications.isEmpty ++
    sectionText (m.entities.values.map Entity.text) ++
    spacedSection (m.enumerations.values.map Enumeration.text) m.enumerations.isEmpty ++
    spacedSection m.relationships.blocks m.relationships.isEmpty ++
    sectionText (m.options.toList.map GeneratorOption.text)

end Model
end DomainModel
