import DomainModel.Descriptor.Codec
import DomainModel.Descriptor.ToModel
import DomainModel.Disk.Basic
/-!
# Reading descriptors and applications from a disk

An application directory holds the settings of its generator and a directory of descriptor files,
one for each entity. Files there that are no readable descriptors are passed over.
-/
namespace DomainModel
namespace Disk

/-- The file of an entity in a directory: its name with a capital first letter. -/
def entityPath (directory entity : String) : Outcome String :=
  if entity = "" then .error .entityNameEmpty
  else .ok (Path.join directory (upperFirst entity ++ ".json"))

/-- The text of a file that must hold text. -/
def readText (d : Disk) (path : String) : Outcome String :=
  match d.read? path with
  | some text => .ok text
  | none => .error .storage

/-- The descriptor in a file, which must exist and have the extension `json`. -/
def readEntity (d : Disk) (path : String) : Outcome EntityDescriptor :=
  if path = "" then .error .filePathEmpty
  else if !d.isFile path then .error (.fileMissing path)
  else if Path.extension? path ≠ some "json" then .error (.fileNotJson path)
  else do EntityDescriptor.parse (← d.readText path)

/-- The section of the generator settings that is read, if there is one. -/
def generatorSettings (d : Disk) (application : String) : Outcome (Option Settings) :=
  let path := Path.join application generatorFile
  if !d.isFile path then .ok none
  else do
    let content ← Outcome.ofReading (Json.parse (← d.readText path))
    match content.canonical.get? generatorSection with
    | some (.record entries) => return some (Table.ofList entries)
    | _ => return none

/-- The readable descriptors of a directory, in the order of their file names. -/
def readDescriptors (d : Disk) (directory : String) : Descriptors :=
  match d.locate directory with
  | none => ∅
  | some l =>
    if d.isDirectoryAt l then
      Table.ofList ((d.namesIn l).filterMap fun name =>
        match Path.stemAndExtension name, d.readEntity (Path.join directory name) with
        | (stem, some "json"), .ok descriptor => some (stem, descriptor)
        | _, _ => none)
    else ∅

/-- The model of an application directory. -/
def readApplication (d : Disk) (application : String) : Outcome Model :=
  if application = "" then .error .directoryPathEmpty
  else if !d.isDirectory application then .error (.directoryMissing application)
  else do
    let m ←
      match ← d.generatorSettings application with
      | some settings => Model.ofGeneratorSettings settings
      | none => .ok ∅
    Descriptors.toModelFrom (d.readDescriptors (Path.join application entityDirectory)) m

end Disk
end DomainModel
