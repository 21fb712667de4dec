import DomainModel.Text.CaseTable
/-!
# Letter case of names

The first character of a name is put into lower or upper case with the full mapping, which may give
several characters. Camel case works on the ASCII letters and digits of a text and drops the rest.
-/
namespace DomainModel

def lowerFirst (s : String) : String :=
  match s.toList with
  | [] => ""
  | c :: rest => String.ofList (lowerCaseTable.map c ++ rest)

def upperFirst (s : String) : String :=
  match s.toList with
  | [] => ""
  | c :: rest => String.ofList (upperCaseTable.map c ++ rest)

/-- Puts a blank between a lower-case letter or digit and a capital that follows it. Boundaries are
taken from the left and do not overlap. -/
def spaceCapitals : List Char → List Char
  | [] => []
  | [c] => [c]
  | c :: d :: rest =>
    if (c.isLower || c.isDigit) && d.isUpper then c :: ' ' :: d :: spaceCapitals rest
    else c :: spaceCapitals (d :: rest)

/-- The maximal runs of ASCII letters and digits. -/
def alphanumericRuns : List Char → List (List Char)
  | [] => []
  | c :: rest =>
    if c.isAlphanum then
      match rest, alphanumericRuns rest with
      | d :: _, run :: runs => if d.isAlphanum then (c :: run) :: runs else [c] :: run :: runs
      | _, runs => [c] :: runs
    else alphanumericRuns rest

def capitalized : List Char → List Char
  | [] => []
  | c :: rest => c.toUpper :: rest

/-- The first word in lower case, and each further word with a capital and then lower case. -/
def camelWords : List (List Char) → List Char
  | [] => []
  | word :: words =>
    word.map Char.toLower ++ words.flatMap fun w => capitalized (w.map Char.toLower)

/-- Lower camel case: `Job History` and `job_history` both give `jobHistory`. -/
def camelCase (s : String) : String :=
  String.ofList (camelWords (alphanumericRuns (spaceCapitals s.toList)))

end DomainModel
