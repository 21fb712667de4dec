import DomainModel.Document.Comments
import DomainModel.Model.Basic
import DomainModel.Text.Casing
/-!
# The model that a document declares

Enumerations, entities, relationships, options and applications are resolved in this order into a
model, which may already hold parts. The first failure ends the work.
-/
namespace DomainModel

/-- What is known about the application that a document is read for. -/
structure Target where
  applicationType : Option ApplicationType
  applicationName : Option String
  databaseType : Option DatabaseType
  deriving DecidableEq, Repr

namespace Target

def any : Target := ⟨none, none, none⟩

instance : Inhabited Target := ⟨any⟩

end Target

namespace Document

/-- The entities that the declared applications own, each with the database of its application;
the last application that owns an entity decides. -/
def ownedDatabases (d : Document) : List (String × DatabaseType) :=
  d.applications.flatMap fun a =>
    match a.selection with
    | none => []
    | some s =>
      let database :=
        (((a.settings.find? "databaseType").bind Json.text?).bind DatabaseType.ofWord?).getD .sql
      (s.choose d.entityNames).map fun name => (name, database)

/-- The database of an entity: that of the target, else of its application, else SQL. -/
def databaseOf (d : Document) (target : Target) (entity : String) : DatabaseType :=
  match target.databaseType with
  | some t => t
  | none => (Table.lookup entity d.ownedDatabases.reverse).getD .sql

def addEnumerations (d : Document) (m : Model) : Outcome Model :=
  d.enumerations.foldlM (fun m e =>
    m.addEnumeration { Enumeration.named e.name e.values with comment := e.comment }) m

/-- A text value that names a constant stands for the value of the constant. -/
def resolveConstant (d : Document) : Json → Json
  | .text name => (d.constants.find? name).getD (.text name)
  | v => v

def buildField (d : Document) (declared : DeclaredField) (comment : Option String) : Field :=
  declared.validations.foldl
    (fun f v => f.addValidation ⟨v.key, v.value.map d.resolveConstant⟩)
    { Field.named declared.name declared.type with comment := comment }

/-- A field type must be built in for the database of its entity or name an enumeration. Gateways
are not checked. -/
def checkFieldType (d : Document) (target : Target) (m : Model) (entity : String)
    (f : DeclaredField) : Outcome Unit :=
  if target.applicationType = some .gateway then .ok ()
  else if FieldType.isLegal (d.databaseOf target entity) f.type || m.hasEnumeration f.type then
    .ok ()
  else .error (.unknownFieldType f.type f.name entity)

/-- The declared entity with its commented fields; a field named `id` is left out. -/
def buildEntity (d : Document) (target : Target) (m : Model) (declared : DeclaredEntity) :
    Outcome Entity :=
  (commentedFields declared.body).foldlM
    (fun e (f, comment) =>
      if f.name = "id" then .ok e
      else do
        d.checkFieldType target m declared.name f
        return e.addField (d.buildField f comment))
    { Entity.named declared.name with
      tableName := declared.tableName.getD declared.name
      comment := declared.comment }

def addEntities (d : Document) (target : Target) (m : Model) : Outcome Model :=
  d.entities.foldlM (fun m e => do m.addEntity (← d.buildEntity target m e)) m

/-- Both ends of a relationship must be entities of the model or the user entity. -/
def checkEnd (m : Model) (r : DeclaredRelationship) (name : String) : Outcome Unit :=
  if m.hasEntity name || Entity.isUser name then .ok ()
  else .error (.undeclaredEnd r.source.name r.destination.name name)

/-- Without a declared field the source receives one named after the destination. -/
def buildRelationship (r : DeclaredRelationship) : Relationship where
  cardinality := r.cardinality
  source := r.source.name
  destination := r.destination.name
  injectedInSource := some (r.source.injectedField.getD (camelCase r.destination.name))
  injectedInDestination := r.destination.injectedField
  requiredInSource := some r.source.isRequired
  requiredInDestination := some r.destination.isRequired
  commentInSource := r.source.comment
  commentInDestination := r.destination.comment
  ownerSide := none

def addRelationships (d : Document) (m : Model) : Outcome Model :=
  d.relationships.foldlM (fun m r => do
    checkEnd m r r.source.name
    checkEnd m r r.destination.name
    m.addRelationship (buildRelationship r)) m

/-- The option that a declaration means, with its scope. -/
def buildOption (name : String) (o : DeclaredOption) : Outcome GeneratorOption := do
  let built ←
    if OptionName.isUnary name then GeneratorOption.ofFlag name
    else if OptionName.isBinary name then GeneratorOption.ofValue name (o.value.getD "")
    else .error (.unknownOption o.name)
  let included := if o.listed.isEmpty then built else built.withIncluded o.listed
  return included.withExcluded o.excluded

def checkOptionEntities (m : Model) (name : String) (o : DeclaredOption) : Outcome Unit :=
  match (o.listed ++ o.excluded).find? fun n => n != allEntities && !m.hasEntity n with
  | some missing => .error (.undeclaredInOption missing name)
  | none => .ok ()

/-- The entities whose databases an option is checked against. -/
def optionTargets (m : Model) (o : DeclaredOption) : List String :=
  if o.listed.isEmpty || o.listed.contains allEntities then
    m.entityNames.filter fun n => !o.excluded.contains n
  else o.listed

def optionDatabases (d : Document) (target : Target) (m : Model) (o : DeclaredOption) :
    List DatabaseType :=
  match optionTargets m o with
  | [] => [d.databaseOf target ""]
  | names => names.map (d.databaseOf target)

/-- No database of the targets may refuse the option. -/
def checkOptionDatabase (d : Document) (target : Target) (m : Model) (name : String)
    (o : DeclaredOption) : Outcome Unit :=
  match (d.optionDatabases target m o).findSome? (OptionName.refusal? name) with
  | some reason => .error (.optionRefusedByDatabase reason)
  | none => .ok ()

/-- Adds one option; a microservice has no client root folder. -/
def addOption (d : Document) (target : Target) (m : Model) (o : DeclaredOption) :
    Outcome Model := do
  let name := OptionName.ofKeyword o.name
  if name = OptionName.clientRootFolder ∧ target.applicationType = some .microservice then
    return m
  let built ← buildOption name o
  checkOptionEntities m name o
  d.checkOptionDatabase target m name o
  m.addOption built

def addOptions (d : Document) (target : Target) (m : Model) : Outcome Model :=
  d.options.foldlM (d.addOption target) m

def declaresMicroservice (d : Document) : Bool :=
  d.options.any fun o => OptionName.ofKeyword o.name == OptionName.microservice

/-- For a microservice, all entities belong to it unless the document says otherwise. -/
def assignMicroservice (d : Document) (target : Target) (m : Model) : Outcome Model :=
  if target.applicationType ≠ some .microservice ∨ m.entities.isEmpty ∨ d.declaresMicroservice then
    .ok m
  else
    match target.applicationName with
    | none => .error .applicationNameMissing
    | some name => do
      let o ← GeneratorOption.ofValue OptionName.microservice name
      m.addOption (o.withIncluded m.entityNames)

def checkSelection (m : Model) (application : String) (s : Selection) : Outcome Unit :=
  match (s.listed ++ s.excluded).find? fun n => n != allEntities && !m.hasEntity n with
  | some missing => .error (.undeclaredInApplication missing application)
  | none => .ok ()

def buildApplication (m : Model) (entityNames : List String) (secrets : Secrets)
    (declared : DeclaredApplication) : Outcome Application :=
  let a := Application.new secrets declared.settings
  match declared.selection with
  | none => .ok a
  | some s => do
    checkSelection m (a.baseName?.getD "") s
    return a.addEntityNames (s.choose entityNames)

/-- Adds the declared applications, each with secrets of its own. -/
def addApplications (d : Document) (draw : Nat → Secrets) (m : Model) : Outcome Model :=
  d.applications.zipIdx.foldlM (fun k (a, i) => do
    k.addApplication (← buildApplication k m.entityNames (draw i) a)) m

/-- Resolves the document into `m`. -/
def toModelFrom (d : Document) (target : Target) (draw : Nat → Secrets) (m : Model) :
    Outcome Model := do
  let m ← d.addEnumerations m
  let m ← d.addEntities target m
  let m ← d.addRelationships m
  let m ← d.addOptions target m
  let m ← d.assignMicroservice target m
  d.addApplications draw m

/-- Resolves the document into a new model. -/
def toModel (d : Document) (target : Target) (draw : Nat → Secrets) : Outcome Model :=
  d.toModelFrom target draw ∅

/-- The document must have been passed. -/
def resolve (d : Option Document) (target : Target) (draw : Nat → Secrets) (m : Model) :
    Outcome Model :=
  match d with
  | none => .error .documentMissing
  | some d => d.toModelFrom target draw m

end Document
end DomainModel
