import DomainModel.Text.Lines
/-!
# Path texts

A path is a text of segments with slashes between them. Joining adds a slash only where one is
missing; nothing else is normalised.
-/
namespace DomainModel
namespace Path

def separator : Char := '/'

def isAbsolute (path : String) : Bool := path.toList.head? == some separator

/-- An absolute second part stands alone; an empty first part adds nothing. -/
def join (path part : String) : String :=
  if isAbsolute part || path = "" then part
  else if path.toList.getLast? == some separator then path ++ part
  else path ++ "/" ++ part

/-- The texts between the slashes, empty ones included. -/
def segments (path : String) : List String :=
  (piecesBetween separator path.toList).map String.ofList

/-- The longest path that a disk follows has 4095 bytes, and none holds a null character. -/
def isUsable (path : String) : Bool :=
  path != "" && path.utf8ByteSize < 4096 && !path.toList.contains '\x00'

/-- Whether a segment leads nowhere else. -/
def isIdle (segment : String) : Bool := segment == "" || segment == "."

/-- Segments without those at the end that lead nowhere else. -/
def trimmed (segments : List String) : List String := (segments.reverse.dropWhile isIdle).reverse

/-- The path without its last segment that counts; none if nothing is left to take away. Only at the
very start does the current directory count. -/
def parent? (path : String) : Option String :=
  match segments path with
  | [] => none
  | "" :: rest =>
    match trimmed rest with
    | [] => none
    | names => some ("/" ++ joinWith "/" (trimmed names.dropLast))
  | first :: rest =>
    match trimmed rest with
    | [] => some ""
    | names => some (joinWith "/" (first :: trimmed names.dropLast))

/-- Whether the last segment is the current directory. -/
def endsInPlace (path : String) : Bool :=
  ((segments path).reverse.dropWhile (· == "")).head? == some "."

/-- The last segment that is neither empty nor the current directory; the parent has no name. -/
def fileName? (path : String) : Option String :=
  match ((segments path).filter fun s => !isIdle s).getLast? with
  | some name => if name = ".." then none else some name
  | none => none

/-- The parts before and after the last point, if there is one. -/
def splitPoint : List Char → Option (List Char × List Char)
  | [] => none
  | c :: rest =>
    match splitPoint rest with
    | some (before, after) => some (c :: before, after)
    | none => if c = '.' then some ([], rest) else none

/-- A name before its last point, and the extension after it. A name whose only point comes first
has no extension. -/
def stemAndExtension (name : String) : String × Option String :=
  match splitPoint name.toList with
  | some (c :: before, after) => (String.ofList (c :: before), some (String.ofList after))
  | _ => (name, none)

def extension? (path : String) : Option String :=
  (fileName? path).bind fun name => (stemAndExtension name).2

end Path
end DomainModel
