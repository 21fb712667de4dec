import DomainModel.Disk.Path
import DomainModel.Table
/-!
# Disks

A disk holds directories and files. A path is followed segment by segment, from a working directory
or from the root, and every segment but the last must lead to a directory. The directories around
the working directory are there, but of what they hold only new entries are known.
-/
namespace DomainModel

/-- The content of a file is absent where its bytes are no text. -/
inductive DiskEntry where
  | file (content : Option String)
  | directory (entries : List (String × DiskEntry))

namespace DiskEntry

instance : Inhabited DiskEntry := ⟨directory []⟩

def isDirectory : DiskEntry → Bool
  | directory _ => true
  | file _ => false

/-- What lies at the end of a list of names. -/
def at? : List String → DiskEntry → Option DiskEntry
  | [], e => some e
  | name :: rest, directory entries => Table.lookup name entries >>= at? rest
  | _ :: _, file _ => none

/-- Puts an entry at the end of a list of names, which must lead through directories. -/
def put? (new : DiskEntry) : List String → DiskEntry → Option DiskEntry
  | [], _ => some new
  | [name], directory entries => some (directory (Table.put name new entries))
  | name :: rest, directory entries => do
    let inner ← Table.lookup name entries
    let inner ← put? new rest inner
    return directory (Table.put name inner entries)
  | _ :: _, file _ => none

def inOrder {α : Type} (entries : List (String × α)) : List (String × α) :=
  entries.mergeSort fun a b => !decide (b.1 < a.1)

mutual

/-- The paths of all that lies within, each name after `start`. Every directory comes before what
it holds, and names come in increasing order. -/
def paths (start : String) : DiskEntry → List String
  | file _ => []
  | directory entries => (inOrder (namedPaths start entries)).flatMap Prod.snd

def namedPaths (start : String) : List (String × DiskEntry) → List (String × List String)
  | [] => []
  | (name, e) :: rest =>
    let path := start ++ name
    let own := if e.isDirectory then (path ++ "/") :: paths (path ++ "/") e else [path]
    (name, own) :: namedPaths start rest

end

end DiskEntry

/-- Where paths start: the directory some levels above the working directory, or the root. -/
inductive Anchor where
  | above (levels : Nat)
  | root
  deriving DecidableEq, Repr

/-- A place on a disk: the names that lead to it from an anchor. -/
structure Location where
  anchor : Anchor
  names : List String
  deriving DecidableEq, Repr

namespace Location

/-- The root is its own parent. -/
def parent (l : Location) : Location :=
  match l.names, l.anchor with
  | [], .above n => ⟨.above (n + 1), []⟩
  | [], .root => l
  | names, anchor => ⟨anchor, names.dropLast⟩

/-- Where a segment leads from a directory. -/
def follow (l : Location) (segment : String) : Location :=
  if Path.isIdle segment then l
  else if segment = ".." then l.parent
  else ⟨l.anchor, l.names ++ [segment]⟩

end Location

/-- The known entries of each anchor, which is a directory. -/
structure Disk where
  anchors : Table Anchor DiskEntry

namespace Disk

def empty : Disk := ⟨∅⟩

instance : Inhabited Disk := ⟨empty⟩

instance : EmptyCollection Disk := ⟨empty⟩

def anchor (d : Disk) (a : Anchor) : DiskEntry := (d.anchors.find? a).getD (.directory [])

def entry? (d : Disk) (l : Location) : Option DiskEntry := (d.anchor l.anchor).at? l.names

def isDirectoryAt (d : Disk) (l : Location) : Bool := (d.entry? l).any DiskEntry.isDirectory

/-- Names have at most 255 bytes. -/
def isName (name : String) : Bool := name.utf8ByteSize ≤ 255

def origin (path : String) : Location :=
  if Path.isAbsolute path then ⟨.root, []⟩ else ⟨.above 0, []⟩

def walk (d : Disk) (here : Location) : List String → Option Location
  | [] => some here
  | segment :: rest =>
    if d.isDirectoryAt here then d.walk (here.follow segment) rest else none

/-- The location that a path leads to, whether or not something is there. -/
def locate (d : Disk) (path : String) : Option Location :=
  if Path.isUsable path then d.walk (origin path) (Path.segments path) else none

def at? (d : Disk) (path : String) : Option DiskEntry := d.locate path >>= d.entry?

def exists? (d : Disk) (path : String) : Bool := (d.at? path).isSome

def isDirectory (d : Disk) (path : String) : Bool := (d.at? path).any DiskEntry.isDirectory

def isFile (d : Disk) (path : String) : Bool := (d.at? path).any fun e => !e.isDirectory

/-- The text of a file; none if there is no file or it holds no text. -/
def read? (d : Disk) (path : String) : Option String :=
  match d.at? path with
  | some (.file content) => content
  | _ => none

/-- Puts an entry under the last name of a location. -/
def put? (d : Disk) (l : Location) (e : DiskEntry) : Option Disk :=
  if l.names.getLast?.any isName then do
    let held ← DiskEntry.put? e l.names (d.anchor l.anchor)
    return ⟨d.anchors.insert l.anchor held⟩
  else none

/-- Creates or replaces the file; its directory must exist. -/
def writeContent (d : Disk) (path : String) (content : Option String) : Option Disk := do
  let l ← d.locate path
  if d.isDirectoryAt l then none else d.put? l (.file content)

def write (d : Disk) (path : String) (text : String) : Option Disk :=
  d.writeContent path (some text)

/-- Makes the directory at `l` if nothing is there yet. -/
def ensureDirectory (d : Disk) (l : Location) : Option Disk :=
  match d.entry? l with
  | some e => if e.isDirectory then some d else none
  | none => d.put? l (.directory [])

/-- Makes the directories that lie along the segments. The answer tells whether all are there; what
was made before a failure stays. -/
def ensureDirectories (d : Disk) (here : Location) : List String → Disk × Bool
  | [] => (d, true)
  | segment :: rest =>
    let there := here.follow segment
    match d.ensureDirectory there with
    | none => (d, false)
    | some d => d.ensureDirectories there rest

/-- Makes every directory that the path names; the empty path names none. A path that ends in place
leads to a directory that is there, so only those before it are made. -/
def createDirectories (d : Disk) (path : String) : Disk × Bool :=
  if path = "" then (d, true)
  else if !Path.isUsable path then (d, false)
  else if Path.endsInPlace path then
    let (d, made) := d.ensureDirectories (origin path) (Path.segments ((Path.parent? path).getD ""))
    (d, made && d.isDirectory path)
  else d.ensureDirectories (origin path) (Path.segments path)

/-- The names in a directory, in increasing order. -/
def namesIn (d : Disk) (l : Location) : List String :=
  match d.entry? l with
  | some (.directory entries) => (DiskEntry.inOrder entries).map Prod.fst
  | _ => []

/-- The paths of all that lies below the working directory. -/
def tree (d : Disk) : List String := (d.anchor (.above 0)).paths ""

end Disk
end DomainModel
