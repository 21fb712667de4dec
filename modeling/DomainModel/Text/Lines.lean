/-!
# Pieces, lines and comment blocks

A separator splits a text into one piece more than it occurs. A text splits into lines at line
feeds; a carriage return just before a line feed belongs to the line end, and a line feed at the
very end opens no further line.
-/
namespace DomainModel

/-- The pieces between the separators, empty ones included. -/
def piecesBetween (sep : Char) : List Char → List (List Char)
  | [] => [[]]
  | c :: rest =>
    if c = sep then [] :: piecesBetween sep rest
    else
      match piecesBetween sep rest with
      | [] => [[c]]
      | piece :: pieces => (c :: piece) :: pieces

def lineChars : List Char → List (List Char)
  | [] => []
  | '\n' :: rest => [] :: lineChars rest
  | '\r' :: '\n' :: rest => [] :: lineChars rest
  | c :: rest =>
    match lineChars rest with
    | [] => [[c]]
    | line :: lines => (c :: line) :: lines

/-- The lines of a text, without their line ends. -/
def lines (s : String) : List String := (lineChars s.toList).map String.ofList

/-- The texts one after another, with `sep` between neighbours. -/
def joinWith (sep : String) : List String → String
  | [] => ""
  | [s] => s
  | s :: t :: rest => s ++ sep ++ joinWith sep (t :: rest)

/-- All texts one after another. -/
def concat : List String → String
  | [] => ""
  | s :: rest => s ++ concat rest

/-- Each line moved right by two blanks; the text ends without a line feed. -/
def indented (s : String) : String := joinWith "\n" ((lines s).map ("  " ++ ·))

/-- A documentation comment: one starred line for each line of `comment`. -/
def commentBlock (comment : String) : String :=
  "/**\n" ++ concat ((lines comment).map fun line => " * " ++ line ++ "\n") ++ " */\n"

def optionalComment : Option String → String
  | none => ""
  | some comment => commentBlock comment

end DomainModel
