import DomainModel.Json.Value
import DomainModel.Number.Decimal
/-!
# Tokens of JSON text

A text is a list of structural marks and scalars, with blanks between them. The written forms are
strict: no leading zeros and no raw control characters. A text with an unpaired surrogate escape and
a number beyond the range of binary64 are well formed, but have no value.
-/
namespace DomainModel

inductive JsonToken where
  | mark (c : Char)
  | scalar (s : Scalar)
  | brokenText
  | hugeNumber
  deriving DecidableEq

namespace JsonToken

def hexDigit? (c : Char) : Option Nat :=
  if '0' ≤ c && c ≤ '9' then some (c.toNat - 48)
  else if 'a' ≤ c && c ≤ 'f' then some (c.toNat - 87)
  else if 'A' ≤ c && c ≤ 'F' then some (c.toNat - 55)
  else none

/-- Four hexadecimal digits and the rest of the text. -/
def hexUnit? : List Char → Option (Nat × List Char)
  | a :: b :: c :: d :: rest => do
    let a ← hexDigit? a
    let b ← hexDigit? b
    let c ← hexDigit? c
    let d ← hexDigit? d
    return (((a * 16 + b) * 16 + c) * 16 + d, rest)
  | _ => none

/-- The character of an escape `\u`, whose digits come first: one unit, or a surrogate pair. An
unpaired surrogate is no character, and what follows it stands for itself. -/
def unicodeEscape? (cs : List Char) : Option (Option Char × List Char) := do
  let (unit, rest) ← hexUnit? cs
  if 0xd800 ≤ unit && unit < 0xdc00 then
    match rest with
    | '\\' :: 'u' :: after =>
      let (low, after) ← hexUnit? after
      if 0xdc00 ≤ low && low < 0xe000 then
        return (some (Char.ofNat (0x10000 + (unit - 0xd800) * 0x400 + (low - 0xdc00))), after)
      else return (none, rest)
    | _ => return (none, rest)
  else if 0xdc00 ≤ unit && unit < 0xe000 then return (none, rest)
  else return (some (Char.ofNat unit), rest)

def simpleEscape? : Char → Option Char
  | '"' => some '"'
  | '\\' => some '\\'
  | '/' => some '/'
  | 'b' => some '\x08'
  | 'f' => some '\x0c'
  | 'n' => some '\n'
  | 'r' => some '\r'
  | 't' => some '\t'
  | _ => none

/-- The characters up to the closing quote, none standing for an unpaired surrogate, and the rest
after it. -/
def quoted? : Nat → List Char → Option (List (Option Char) × List Char)
  | 0, _ => none
  | _ + 1, [] => none
  | _ + 1, '"' :: rest => some ([], rest)
  | fuel + 1, '\\' :: 'u' :: rest => do
    let (c, rest) ← unicodeEscape? rest
    let (cs, rest) ← quoted? fuel rest
    return (c :: cs, rest)
  | fuel + 1, '\\' :: e :: rest => do
    let c ← simpleEscape? e
    let (cs, rest) ← quoted? fuel rest
    return (some c :: cs, rest)
  | fuel + 1, c :: rest => do
    if c.toNat < 0x20 || c == '\\' then none
    let (cs, rest) ← quoted? fuel rest
    return (some c :: cs, rest)

def ofQuoted (cs : List (Option Char)) : JsonToken :=
  if cs.all Option.isSome then scalar (.text (String.ofList (cs.filterMap id))) else brokenText

def digitsValue (cs : List Char) : Nat := cs.foldl (fun n c => n * 10 + (c.toNat - 48)) 0

/-- The parts of a written number: a fraction or an exponent makes it a binary64 number. -/
structure NumberParts where
  negative : Bool
  whole : List Char
  fraction : Option (List Char)
  exponent : Option Int

/-- The nearest binary64 number. -/
def NumberParts.rounded (p : NumberParts) : JsonToken :=
  let digits := digitsValue (p.whole ++ p.fraction.getD [])
  let exponent := p.exponent.getD 0 - (p.fraction.getD []).length
  match Decimal.toBinary64 p.negative ⟨digits, exponent⟩ with
  | some x => scalar (.float x)
  | none => hugeNumber

/-- Whole numbers in the range of 64 bits stay whole; every other number is rounded. -/
def NumberParts.token (p : NumberParts) : JsonToken :=
  let n := digitsValue p.whole
  match p.fraction, p.exponent with
  | none, none =>
    if p.negative then
      if n = 0 || n > Nat.pow 2 63 then p.rounded else scalar (.int (-n))
    else if n < Nat.pow 2 64 then scalar (.int n) else p.rounded
  | _, _ => p.rounded

def wholePart? : List Char → Option (List Char × List Char)
  | '0' :: rest => some (['0'], rest)
  | cs =>
    match cs.takeWhile Char.isDigit with
    | [] => none
    | digits => some (digits, cs.dropWhile Char.isDigit)

def fractionPart? : List Char → Option (Option (List Char) × List Char)
  | '.' :: rest =>
    match rest.takeWhile Char.isDigit with
    | [] => none
    | digits => some (some digits, rest.dropWhile Char.isDigit)
  | cs => some (none, cs)

def exponentDigits? (negative : Bool) (cs : List Char) : Option (Option Int × List Char) :=
  match cs.takeWhile Char.isDigit with
  | [] => none
  | digits =>
    let n : Int := digitsValue digits
    some (some (if negative then -n else n), cs.dropWhile Char.isDigit)

def exponentPart? : List Char → Option (Option Int × List Char)
  | 'e' :: rest | 'E' :: rest =>
    match rest with
    | '+' :: rest => exponentDigits? false rest
    | '-' :: rest => exponentDigits? true rest
    | rest => exponentDigits? false rest
  | cs => some (none, cs)

def number? (negative : Bool) (cs : List Char) : Option (JsonToken × List Char) := do
  let (whole, rest) ← wholePart? cs
  let (fraction, rest) ← fractionPart? rest
  let (exponent, rest) ← exponentPart? rest
  return (NumberParts.token ⟨negative, whole, fraction, exponent⟩, rest)

def isMark (c : Char) : Bool :=
  c == '\x7b' || c == '\x7d' || c == '[' || c == ']' || c == ':' || c == ','

def isSpace (c : Char) : Bool := c == ' ' || c == '\n' || c == '\t' || c == '\r'

/-- The first token of a text that starts with no blank. The fuel covers the text. -/
def first? (fuel : Nat) : List Char → Option (JsonToken × List Char)
  | 'n' :: 'u' :: 'l' :: 'l' :: rest => some (.scalar .null, rest)
  | 't' :: 'r' :: 'u' :: 'e' :: rest => some (.scalar (.bool true), rest)
  | 'f' :: 'a' :: 'l' :: 's' :: 'e' :: rest => some (.scalar (.bool false), rest)
  | '"' :: rest => do
    let (cs, rest) ← quoted? fuel rest
    return (ofQuoted cs, rest)
  | '-' :: rest => number? true rest
  | c :: rest => if isMark c then some (.mark c, rest) else number? false (c :: rest)
  | [] => none

def tokensWithin : Nat → List Char → Option (List JsonToken)
  | _, [] => some []
  | 0, _ :: _ => none
  | fuel + 1, c :: cs =>
    if isSpace c then tokensWithin fuel cs
    else do
      let (token, rest) ← first? (fuel + 1) (c :: cs)
      let tokens ← tokensWithin fuel rest
      return token :: tokens

/-- The tokens of a text, or none where no token starts. -/
def ofChars (cs : List Char) : Option (List JsonToken) := tokensWithin cs.length cs

end JsonToken
end DomainModel
