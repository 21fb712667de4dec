import DomainModel.Descriptor.Equality
import DomainModel.Disk.Reading
import DomainModel.Json.Writer
/-!
# Exporting descriptors and models to a disk

An export writes the descriptors that differ from their files. A file that is written again keeps
the changelog date it had. What was written before a failure stays written.
-/
namespace DomainModel

/-- Where descriptors go, and how far their text is moved right for each level. -/
structure ExportPlan where
  root : String
  directory : String
  indent : Nat
  deriving DecidableEq, Repr

namespace ExportPlan

def standard : ExportPlan := ⟨".", entityDirectory, 4⟩

instance : Inhabited ExportPlan := ⟨standard⟩

/-- The directory of the descriptors of a single application. -/
def entityPath (p : ExportPlan) : String := Path.join p.root p.directory

/-- The directory of the descriptors of one application among several. -/
def applicationPath (p : ExportPlan) (application : String) : String :=
  Path.join (Path.join p.root application) p.directory

end ExportPlan

namespace Disk

/-- The descriptor that a file holds at present; none if it is missing or unreadable. -/
def current? (d : Disk) (path : String) : Option EntityDescriptor :=
  match d.readEntity path with
  | .ok descriptor => some descriptor
  | .error _ => none

def keepingDate (current : Option EntityDescriptor) (descriptor : EntityDescriptor) :
    EntityDescriptor :=
  match current.bind EntityDescriptor.changelogDate with
  | some date => { descriptor with changelogDate := some date }
  | none => descriptor

def fileText (indent : Nat) (descriptor : EntityDescriptor) : String :=
  descriptor.toJson.pretty indent

/-- Writes one descriptor, unless its file holds the same entity and writing is not forced. The
answer is the descriptor that was written. -/
def exportEntity (d : Disk) (directory : String) (indent : Nat) (force : Bool) (entity : String)
    (descriptor : EntityDescriptor) : Outcome (Disk × Option EntityDescriptor) := do
  let path ← entityPath directory entity
  let current := d.current? path
  if !force && current.any (fun c => c.sameEntity descriptor) then return (d, none)
  let dated := keepingDate current descriptor
  match d.write path (fileText indent dated) with
  | some d => return (d, some dated)
  | none => .error .storage

def exportAll (directory : String) (indent : Nat) (force : Bool) :
    List (String × EntityDescriptor) → Disk → Descriptors → Disk × Outcome Descriptors
  | [], d, written => (d, .ok written)
  | (entity, descriptor) :: rest, d, written =>
    match d.exportEntity directory indent force entity descriptor with
    | .error f => (d, .error f)
    | .ok (d, none) => exportAll directory indent force rest d written
    | .ok (d, some dated) =>
      exportAll directory indent force rest d (written.insert entity dated)

/-- Exports to a directory, which is made if it is missing; the answer holds what was written. -/
def exportTo (d : Disk) (directory : String) (indent : Nat) (force : Bool)
    (entities : Descriptors) : Disk × Outcome Descriptors :=
  if d.exists? directory && !d.isDirectory directory then
    (d, .error (.pathIsNoDirectory directory))
  else
    match d.createDirectories directory with
    | (d, false) => (d, .error .storage)
    | (d, true) => exportAll directory indent force entities.entries d ∅

/-- Exports for a single application. -/
def exportEntities (d : Disk) (plan : ExportPlan) (force : Bool) (entities : Descriptors) :
    Disk × Outcome Descriptors :=
  d.exportTo plan.entityPath plan.indent force entities

/-- Exports for an application of this name and type: a microservice receives only its own
entities. -/
def exportFor (d : Disk) (plan : ExportPlan) (force : Bool) (application : String)
    (type : ApplicationType) (entities : Descriptors) : Disk × Outcome Descriptors :=
  if type = .microservice then
    d.exportEntities plan force (entities.filter fun _ e => e.inMicroservice application)
  else d.exportEntities plan force entities

/-- Each application in turn receives the entities that it owns, in the directory given for it. -/
def exportEach (directoryOf : String → String) (indent : Nat) (force : Bool)
    (entities : Descriptors) :
    List String → Disk → Table String Descriptors → Disk × Outcome (Table String Descriptors)
  | [], d, done => (d, .ok done)
  | application :: rest, d, done =>
    match d.exportTo (directoryOf application) indent force
        (entities.filter fun _ e => e.ownedBy application) with
    | (d, .error f) => (d, .error f)
    | (d, .ok written) =>
      exportEach directoryOf indent force entities rest d (done.insert application written)

/-- Exports for several applications: each has a directory of its own, but a single one uses the
plain directory. -/
def exportApplications (d : Disk) (plan : ExportPlan) (force : Bool) (entities : Descriptors)
    (applications : List Application) : Disk × Outcome (Table String Descriptors) :=
  let names := applications.map fun a => a.baseName?.getD ""
  match names with
  | [] => (d, .error .exportApplicationsMissing)
  | [_] => exportEach (fun _ => plan.entityPath) plan.indent force entities names d ∅
  | _ => exportEach plan.applicationPath plan.indent force entities names d ∅

/-- Writes the text of a model. -/
def exportText (d : Disk) (path : String) (m : Model) : Outcome Disk :=
  if path = "" then .error .exportPathMissing
  else if d.isDirectory path then .error (.pathIsDirectory path)
  else
    match d.write path m.text with
    | some d => .ok d
    | none => .error .storage

end Disk
end DomainModel
