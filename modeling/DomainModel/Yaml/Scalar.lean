import DomainModel.Json.Token
import DomainModel.Yaml.Cursor
/-!
# Written scalars of YAML

Quoted, plain and block scalars. In quoted and plain ones a run of blanks with one line break folds
to one blank, and of several line breaks the first goes.
-/
namespace DomainModel
namespace Yaml

/-- What a run of blanks and line breaks between two words stands for. Only line feeds fold. -/
def foldedGap (gap : List Char) : List Char :=
  match gap.filter isBreak with
  | [] => gap
  | ['\n'] => [' ']
  | '\n' :: breaks => breaks
  | breaks => breaks

/-- The number that one digit or more denote. -/
def natIn? (base : Nat) (cs : List Char) : Option Nat :=
  if cs.isEmpty then none
  else cs.foldl (fun n c => do
    let d ← (JsonToken.hexDigit? c).filter fun d => d < base
    return (← n) * base + d) (some 0)

/-! ## Quoted scalars -/

/-- The characters up to the closing quote, and the place after it. A doubled quote is one. -/
def singleQuoted? : Nat → Cursor → Option (List Char × Cursor)
  | 0, _ => none
  | fuel + 1, p =>
    if p.atDocumentMarks then none
    else
      match p.rest with
      | [] => none
      | '\'' :: '\'' :: _ => do
        let (cs, p) ← singleQuoted? fuel (p.skip 2)
        return ('\'' :: cs, p)
      | '\'' :: _ => some ([], p.next)
      | c :: _ =>
        if isGap c then do
          let gap := p.span isGap
          let (cs, p) ← singleQuoted? fuel (p.skip gap.length)
          return (foldedGap gap ++ cs, p)
        else do
          let (cs, p) ← singleQuoted? fuel p.next
          return (c :: cs, p)

def simpleEscape? : Char → Option Char
  | '0' => some '\x00'
  | 'a' => some '\x07'
  | 'b' => some '\x08'
  | 't' => some '\t'
  | '\t' => some '\t'
  | 'n' => some '\n'
  | 'v' => some '\x0b'
  | 'f' => some '\x0c'
  | 'r' => some '\r'
  | 'e' => some '\x1b'
  | ' ' => some ' '
  | '"' => some '"'
  | '/' => some '/'
  | '\\' => some '\\'
  | 'N' => some '\u0085'
  | '_' => some '\u00a0'
  | 'L' => some '\u2028'
  | 'P' => some '\u2029'
  | _ => none

/-- The character with a code of `count` hexadecimal digits; surrogates are none. -/
def codeEscape? (count : Nat) (cs : List Char) : Option Char := do
  let digits := cs.take count
  let n ← natIn? 16 digits
  if digits.length = count ∧ n.isValidChar then return Char.ofNat n else none

/-- The character that an escape stands for, and the number of characters after the backslash. -/
def escape? : List Char → Option (Char × Nat)
  | 'x' :: rest => (codeEscape? 2 rest).map (·, 3)
  | 'u' :: rest => (codeEscape? 4 rest).map (·, 5)
  | 'U' :: rest => (codeEscape? 8 rest).map (·, 9)
  | c :: _ => (simpleEscape? c).map (·, 1)
  | [] => none

/-- As `singleQuoted?`, with escapes. After an escaped line break only further breaks count. -/
def doubleQuoted? : Nat → Cursor → Option (List Char × Cursor)
  | 0, _ => none
  | fuel + 1, p =>
    if p.atDocumentMarks then none
    else
      match p.rest with
      | [] => none
      | '"' :: _ => some ([], p.next)
      | '\\' :: rest =>
        if (rest.head?).any isBreak then do
          let p := p.skip 2
          let gap := p.span isGap
          let (cs, p) ← doubleQuoted? fuel (p.skip gap.length)
          return (gap.filter isBreak ++ cs, p)
        else do
          let (c, count) ← escape? rest
          let (cs, p) ← doubleQuoted? fuel (p.skip (count + 1))
          return (c :: cs, p)
      | c :: _ =>
        if isGap c then do
          let gap := p.span isGap
          let (cs, p) ← doubleQuoted? fuel (p.skip gap.length)
          return (foldedGap gap ++ cs, p)
        else do
          let (cs, p) ← doubleQuoted? fuel p.next
          return (c :: cs, p)

/-! ## Plain scalars -/

def isFlowMark (c : Char) : Bool :=
  c == ',' || c == '[' || c == ']' || c == '\x7b' || c == '\x7d'

/-- The word that starts a text. A colon before a blank ends it; in brackets, so do a comma and
brackets, and a colon just before one of them is wrong. -/
def plainWord? (flow : Bool) : List Char → Option (List Char)
  | [] => some []
  | c :: rest =>
    if isGap c || (flow && isFlowMark c) then some []
    else if c == ':' && flow && rest.head?.any (fun d => isFlowMark d || d == '?') then none
    else if c == ':' && endsWord rest then some []
    else (plainWord? flow rest).map (c :: ·)

/-- Whether a tab stands among the blanks that move a line right, before the column `least`. The
column is absent on the line where the gap starts. -/
def hasEarlyTab (least : Nat) : Option Nat → List Char → Bool
  | _, [] => false
  | column, c :: rest =>
    if isBreak c then hasEarlyTab least (some 0) rest
    else
      match column with
      | none => hasEarlyTab least none rest
      | some n => (c == '\t' && n < least) || hasEarlyTab least (some (n + 1)) rest

/-- The words of a plain scalar, each after its gap. The last part tells whether a line break was
passed after the last word. Lines must start at the column `least`, except in brackets. -/
def plainWords? (flow : Bool) (least : Nat) :
    Nat → List Char → Cursor → Option (List Char × Cursor × Bool)
  | 0, _, _ => none
  | fuel + 1, gap, p =>
    if p.atDocumentMarks || p.head? == some '#' then some ([], p, gap.any isBreak)
    else do
      let word ← plainWord? flow p.rest
      if word.isEmpty then return ([], p, gap.any isBreak)
      let text := foldedGap gap ++ word
      let p := p.skip word.length
      let gap := p.span isGap
      if gap.isEmpty then return (text, p, false)
      if hasEarlyTab least none gap then none
      let p := p.skip gap.length
      if !flow && p.column < least then return (text, p, gap.any isBreak)
      let (cs, p, broken) ← plainWords? flow least fuel gap p
      return (text ++ cs, p, broken)

/-! ## Block scalars -/

/-- What becomes of the line breaks at the end of a block scalar. -/
inductive Chomping where
  | clip
  | strip
  | keep
  deriving DecidableEq

/-- The marks after `|` or `>`; an indentation of zero is to be found from the lines. -/
structure BlockHeader where
  chomping : Chomping
  indentation : Nat

namespace BlockHeader

def chompingMark (p : Cursor) : Chomping × Cursor :=
  match p.head? with
  | some '+' => (.keep, p.next)
  | some '-' => (.strip, p.next)
  | _ => (.clip, p)

def indentationMark? (p : Cursor) : Option (Nat × Cursor) :=
  match p.head? with
  | some c =>
    if c == '0' then none else some (if c.isDigit then (c.toNat - 48, p.next) else (0, p))
  | none => some (0, p)

/-- The marks in either order, and the place after them. -/
def read? (p : Cursor) : Option (BlockHeader × Cursor) :=
  if p.head?.any Char.isDigit then do
    let (indentation, p) ← indentationMark? p
    let (chomping, p) := chompingMark p
    return (⟨chomping, indentation⟩, p)
  else do
    let (chomping, p) := chompingMark p
    let (indentation, p) ← indentationMark? p
    return (⟨chomping, indentation⟩, p)

end BlockHeader

/-- The place after the blanks, the comment and the line break that may end a line. -/
def lineEnd? (p : Cursor) : Option Cursor :=
  let p := p.skipWhile isInlineBlank
  let p := if p.head? == some '#' then p.skipWhile (!isBreak ·) else p
  if p.atEnd || p.atBreak then some p.next else none

/-- The line breaks of idle lines, the place after them, and the greatest column passed. Blanks
count as indentation before the column, and everywhere while it is zero; a tab there is wrong. -/
def idleLines? (column : Nat) : Nat → Nat → Cursor → Option (List Char × Cursor × Nat)
  | 0, _, _ => none
  | fuel + 1, greatest, p =>
    let blanks := (p.span (· == ' ')).length
    let p := p.skip (if column = 0 then blanks else min blanks (column - p.column))
    let greatest := max greatest p.column
    if (column = 0 || p.column < column) && p.head? == some '\t' then none
    else
      match p.rest with
      | c :: _ =>
        if isBreak c then do
          let (breaks, p, greatest) ← idleLines? column fuel greatest p.next
          return (c :: breaks, p, greatest)
        else some ([], p, greatest)
      | [] => some ([], p, greatest)

/-- Where a block scalar stands between two of its lines: the break after the last line, the breaks
of the idle lines after that, and whether the last line starts with a blank. -/
structure BlockGap where
  last : List Char
  idle : List Char
  afterBlank : Bool

/-- What stands between two lines. In a folded scalar, a line feed between two lines that start with
no blank becomes a blank, or goes if idle lines follow it. -/
def BlockGap.text (g : BlockGap) (folded blank : Bool) : List Char :=
  if folded && g.last == ['\n'] && !g.afterBlank && !blank then
    if g.idle.isEmpty then [' '] else g.idle
  else g.last ++ g.idle

/-- The lines at the column, and the gap after the last one. -/
def blockLines? (folded : Bool) (column : Nat) :
    Nat → BlockGap → Cursor → Option (List Char × BlockGap × Cursor)
  | 0, _, _ => none
  | fuel + 1, gap, p =>
    if p.column == column && !p.atEnd then do
      let blank := p.head?.any isInlineBlank
      let line := p.span (!isBreak ·)
      let after := p.skip line.length
      let (idle, q, _) ← idleLines? column (fuel + 1) 0 after.next
      let (cs, last, q) ← blockLines? folded column fuel ⟨after.rest.take 1, idle, blank⟩ q
      return (gap.text folded blank ++ line ++ cs, last, q)
    else some ([], gap, p)

/-- The text of a block scalar after its first mark. Its lines start at the column `least` or
further right, and an indentation counts from the column before that. -/
def blockScalar? (folded : Bool) (least fuel : Nat) (p : Cursor) :
    Option (List Char × Cursor) := do
  let (header, p) ← BlockHeader.read? p
  let p ← lineEnd? p
  let given := if header.indentation = 0 then 0 else least - 1 + header.indentation
  let (idle, p, greatest) ← idleLines? given fuel 0 p
  let column := if given = 0 then max greatest (max least 1) else given
  let (cs, last, p) ← blockLines? folded column fuel ⟨[], idle, false⟩ p
  return match header.chomping with
    | .strip => (cs, p)
    | .clip => (cs ++ last.last, p)
    | .keep => (cs ++ last.last ++ last.idle, p)

end Yaml
end DomainModel
