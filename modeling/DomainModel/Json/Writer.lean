import DomainModel.Json.Value
import DomainModel.Number.Decimal
/-!
# Writing JSON text

The compact form has no blanks. The laid-out form puts each item and entry on a line of its own,
moved right by its depth, and a blank after each colon; empty lists and records stay on one line.
-/
namespace DomainModel

/-- Numbers have a point or an exponent: positional from `0.00001` to below `10 ^ 16`. -/
def Json.decimalLayout : DecimalLayout := ⟨-5, 16, "+"⟩

namespace Json

def hexChar (n : Nat) : Char := Nat.digitChar n

/-- Quotes, backslashes and control characters are escaped; all else stands for itself. -/
def escaped (c : Char) : List Char :=
  if c = '"' then ['\\', '"']
  else if c = '\\' then ['\\', '\\']
  else if c = '\n' then ['\\', 'n']
  else if c = '\r' then ['\\', 'r']
  else if c = '\t' then ['\\', 't']
  else if c = '\x08' then ['\\', 'b']
  else if c = '\x0c' then ['\\', 'f']
  else if c.toNat < 0x20 then
    ['\\', 'u', '0', '0', hexChar (c.toNat / 16), hexChar (c.toNat % 16)]
  else [c]

def quotedChars (s : String) : List Char := '"' :: (s.toList.flatMap escaped ++ ['"'])

def intChars (n : Int) : List Char :=
  if n < 0 then '-' :: Nat.toDigits 10 n.natAbs else Nat.toDigits 10 n.natAbs

def scalarChars : Scalar → List Char
  | .null => ['n', 'u', 'l', 'l']
  | .bool true => ['t', 'r', 'u', 'e']
  | .bool false => ['f', 'a', 'l', 's', 'e']
  | .int n => intChars n
  | .float x => decimalLayout.text x
  | .text s => quotedChars s

/-- Where lines break: nowhere, or before each item, with this many blanks for each level. -/
abbrev Layout := Option Nat

def lineBreak (layout : Layout) (level : Nat) : List Char :=
  match layout with
  | none => []
  | some width => '\n' :: List.replicate (width * level) ' '

def colon (layout : Layout) : List Char :=
  match layout with
  | none => [':']
  | some _ => [':', ' ']

mutual

def chars (layout : Layout) (level : Nat) : Json → List Char
  | .scalar s => scalarChars s
  | .list [] => ['[', ']']
  | .list (v :: rest) =>
    '[' :: (lineBreak layout (level + 1) ++ chars layout (level + 1) v ++
      itemsChars layout (level + 1) rest ++ lineBreak layout level ++ [']'])
  | .record [] => ['\x7b', '\x7d']
  | .record ((k, v) :: rest) =>
    '\x7b' :: (lineBreak layout (level + 1) ++ quotedChars k ++ colon layout ++
      chars layout (level + 1) v ++ entriesChars layout (level + 1) rest ++
      lineBreak layout level ++ ['\x7d'])

/-- The items after the first, each with its comma. -/
def itemsChars (layout : Layout) (level : Nat) : List Json → List Char
  | [] => []
  | v :: rest =>
    ',' :: (lineBreak layout level ++ chars layout level v ++ itemsChars layout level rest)

def entriesChars (layout : Layout) (level : Nat) : List (String × Json) → List Char
  | [] => []
  | (k, v) :: rest =>
    ',' :: (lineBreak layout level ++ quotedChars k ++ colon layout ++ chars layout level v ++
      entriesChars layout level rest)

end

def compact (v : Json) : String := String.ofList (chars none 0 v)

/-- The laid-out form, with `width` blanks for each level. -/
def pretty (width : Nat) (v : Json) : String := String.ofList (chars (some width) 0 v)

end Json
end DomainModel
