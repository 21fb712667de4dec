import DomainModel.Yaml.Scalar
/-!
# Tokens of YAML text

Indentation becomes visible as tokens: a block opens where an item or key stands further right than
its surroundings, and closes where a line starts further left. A key is recognised by the colon
after it, so its tokens are put in front of what has been read since the key started.
-/
namespace DomainModel
namespace Yaml

inductive Token where
  | directive (version : Nat × Nat)
  | documentStart
  | documentEnd
  | blockListStart
  | blockRecordStart
  | blockEnd
  | flowListStart
  | flowListEnd
  | flowRecordStart
  | flowRecordEnd
  | item
  | comma
  | key
  | value
  | anchor (name : String)
  | alias (name : String)
  | tag (name : String)
  | plain (text : String)
  | quoted (text : String)
  deriving DecidableEq

/-- A place where a key may have started, and how many tokens stand before it. A required key has
to turn out to be one. -/
structure KeyStart where
  required : Bool
  position : Nat
  place : Cursor

/-- The greatest distance from the start of a key to its colon, in bytes. -/
def maxKeyLength : Nat := 1024

namespace KeyStart

/-- Whether a key that started here could no longer end at `p`. -/
def isPast (k : KeyStart) (p : Cursor) : Bool :=
  k.place.line < p.line || k.place.offset + maxKeyLength < p.offset

/-- The start of a key while it can still be one; a required key must not be lost. -/
def current? (p : Cursor) : Option KeyStart → Option (Option KeyStart)
  | none => some none
  | some k => if k.isPast p then (if k.required then none else some none) else some (some k)

def allCurrent? (p : Cursor) : List (Option KeyStart) → Option (List (Option KeyStart))
  | [] => some []
  | k :: rest =>
    match current? p k, allCurrent? p rest with
    | some k, some rest => some (k :: rest)
    | _, _ => none

end KeyStart

/-- The state of a scan. Tokens are held with the last one first, and counted. Each open block is
held by the least column that belongs to it, each open bracket by the key that may have started
before it. -/
structure Scan where
  place : Cursor
  tokens : List Token
  count : Nat
  blocks : List Nat
  keyAllowed : Bool
  keyStart : Option KeyStart
  outerStarts : List (Option KeyStart)

namespace Scan

def start (p : Cursor) : Scan := ⟨p, [], 0, [], true, none, []⟩

/-- Whether the place is within brackets. -/
def inFlow (s : Scan) : Bool := !s.outerStarts.isEmpty

/-- The least column of the innermost block. -/
def least (s : Scan) : Nat := s.blocks.headD 0

def emit (s : Scan) (t : Token) : Scan :=
  { s with tokens := t :: s.tokens, count := s.count + 1 }

/-- Puts a token in front of all but the first `position` ones. -/
def insertAt (s : Scan) (position : Nat) (t : Token) : Scan :=
  let later := s.count - position
  { s with
    tokens := s.tokens.take later ++ t :: s.tokens.drop later
    count := s.count + 1 }

/-- Passes over blanks, comments and line breaks, and over a byte order mark that starts a line and
takes its first column. In brackets, and where no key may start, tabs are blanks; outside brackets a
key may start on each new line. -/
def skipIdle : Nat → Scan → Scan
  | 0, s => s
  | fuel + 1, s =>
    let isIdle (c : Char) : Bool := c == ' ' || (c == '\t' && (s.inFlow || !s.keyAllowed))
    let p := s.place
    let p := if p.column == 0 && p.head? == some '\ufeff' then p.next else p
    let p := p.skipWhile isIdle
    let p := if p.head? == some '#' then p.skipWhile (!isBreak ·) else p
    if p.atBreak then
      skipIdle fuel { s with place := p.next, keyAllowed := s.keyAllowed || !s.inFlow }
    else { s with place := p }

/-- Forgets the starts of keys that can no longer end. -/
def dropPastKeys? (s : Scan) : Option Scan := do
  let keyStart ← KeyStart.current? s.place s.keyStart
  let outerStarts ← KeyStart.allCurrent? s.place s.outerStarts
  return { s with keyStart := keyStart, outerStarts := outerStarts }

/-- Closes the blocks whose least column is greater than `limit`. -/
def closeBlocks (s : Scan) (limit : Nat) : Scan :=
  if s.inFlow then s
  else
    let closing := s.blocks.takeWhile fun least => least > limit
    { s with
      blocks := s.blocks.drop closing.length
      tokens := closing.map (fun _ => .blockEnd) ++ s.tokens
      count := s.count + closing.length }

/-- Forgets the start of a key in the innermost brackets. -/
def forgetKey? (s : Scan) : Option Scan :=
  if s.keyStart.any KeyStart.required then none else some { s with keyStart := none }

/-- Notes that a key may start here. -/
def noteKey? (s : Scan) : Option Scan :=
  if s.keyAllowed then do
    let s ← s.forgetKey?
    let required := !s.inFlow && s.least == s.place.column + 1
    return { s with keyStart := some ⟨required, s.count, s.place⟩ }
  else some s

/-- Opens a block at a column further right than the innermost block. -/
def openBlock (s : Scan) (column position : Nat) (t : Token) : Scan :=
  if !s.inFlow && s.least ≤ column then
    { s.insertAt position t with blocks := (column + 1) :: s.blocks }
  else s

/-- Outside brackets, opens a block for an item or key that may stand here. -/
def openHere? (s : Scan) (t : Token) : Option Scan :=
  if s.inFlow then some s
  else if s.keyAllowed then some (s.openBlock s.place.column s.count t)
  else none

/-- Passes over `count` characters, which are the token. -/
def advance (s : Scan) (count : Nat) (t : Token) : Scan :=
  { s.emit t with place := s.place.skip count }

def openBracket? (s : Scan) (t : Token) : Option Scan := do
  let s ← s.noteKey?
  let outerStarts := s.keyStart :: s.outerStarts
  return { s.advance 1 t with
    outerStarts := outerStarts
    keyStart := none
    keyAllowed := true }

def closeBracket? (s : Scan) (t : Token) : Option Scan := do
  let s ← s.forgetKey?
  let s := { s.advance 1 t with keyAllowed := false }
  return match s.outerStarts with
    | [] => s
    | k :: rest => { s with keyStart := k, outerStarts := rest }

def comma? (s : Scan) : Option Scan := do
  let s ← s.forgetKey?
  return { s.advance 1 .comma with keyAllowed := true }

def item? (s : Scan) : Option Scan := do
  let s ← s.openHere? .blockListStart
  let s ← s.forgetKey?
  return { s.advance 1 .item with keyAllowed := true }

def explicitKey? (s : Scan) : Option Scan := do
  let s ← s.openHere? .blockRecordStart
  let s ← s.forgetKey?
  return { s.advance 1 .key with keyAllowed := !s.inFlow }

/-- A colon makes a key of what started at the last possible place. -/
def value? (s : Scan) : Option Scan :=
  match s.keyStart with
  | some k =>
    let s := s.insertAt k.position .key
    let s := s.openBlock k.place.column k.position .blockRecordStart
    some { s.advance 1 .value with keyStart := none, keyAllowed := false }
  | none => do
    let s ← s.openHere? .blockRecordStart
    return { s.advance 1 .value with keyAllowed := !s.inFlow }

def documentMarks? (s : Scan) (t : Token) : Option Scan := do
  let s ← (s.closeBlocks 0).forgetKey?
  return { s.advance 3 t with keyAllowed := false }

/-- A token within a line, which may be or start a key. -/
def inline? (s : Scan) (read : Cursor → Option (Token × Cursor)) : Option Scan := do
  let s ← s.noteKey?
  let (t, p) ← read s.place
  return { s.emit t with place := p, keyAllowed := false }

def plain? (s : Scan) (fuel : Nat) : Option Scan := do
  let s ← s.noteKey?
  let (cs, p, broken) ← plainWords? s.inFlow s.least fuel [] s.place
  return { s.emit (.plain (String.ofList cs)) with place := p, keyAllowed := broken }

def block? (s : Scan) (folded : Bool) (fuel : Nat) : Option Scan := do
  let s ← s.forgetKey?
  let (cs, p) ← blockScalar? folded s.least fuel s.place.next
  return { s.emit (.quoted (String.ofList cs)) with place := p, keyAllowed := true }

end Scan

/-- A quoted scalar from its first quote on. -/
def quotedToken? (fuel : Nat) (p : Cursor) : Option (Token × Cursor) := do
  let (cs, q) ← if p.head? == some '"' then doubleQuoted? fuel p.next else singleQuoted? fuel p.next
  return (.quoted (String.ofList cs), q)

def isNameChar (c : Char) : Bool := c.isAlphanum || c == '_' || c == '-'

/-- The name after a mark; a blank or one of a few marks must follow it. -/
def nameToken? (make : String → Token) (p : Cursor) : Option (Token × Cursor) :=
  let name := p.next.span isNameChar
  let q := p.next.skip name.length
  if name.isEmpty then none
  else if endsWord q.rest || q.head?.any fun c => "?:,]\x7d%@\x60".toList.contains c then
    some (make (String.ofList name), q)
  else none

def isTagChar (c : Char) : Bool := isNameChar c || ";/?:@&=+$.!~*'()".toList.contains c

/-- The tag of a type of the core schema. -/
def coreTag (type : String) : String := "tag:yaml.org,2002:" ++ type

/-- The name that a tag stands for. Two marks at the start stand for the core schema. -/
def tagName? : List Char → Option String
  | '!' :: '!' :: name => if name.isEmpty then none else some (coreTag (String.ofList name))
  | '!' :: name =>
    if (name.takeWhile isNameChar).length < name.length &&
        (name.dropWhile isNameChar).head? == some '!' then none
    else some (String.ofList ('!' :: name))
  | _ => none

def tagToken? (flow : Bool) (p : Cursor) : Option (Token × Cursor) := do
  let (name, q) ←
    match p.rest with
    | '!' :: '<' :: rest =>
      let name := rest.takeWhile fun c => isTagChar c || c == ',' || c == '[' || c == ']'
      if name.isEmpty || (rest.drop name.length).head? != some '>' then none
      else some (String.ofList name, p.skip (name.length + 3))
    | rest =>
      let name := rest.takeWhile isTagChar
      (tagName? name).map (·, p.skip name.length)
  if endsWord q.rest || (flow && q.head? == some ',') then return (.tag name, q) else none

/-- A directive that names the version of the format. -/
def directiveToken? (p : Cursor) : Option (Token × Cursor) :=
  match p.rest with
  | '%' :: 'Y' :: 'A' :: 'M' :: 'L' :: rest => do
    if !endsWord rest then none
    let p := (p.skip 5).skipWhile isInlineBlank
    let major ← digits? p
    let p := p.skipWhile Char.isDigit
    if p.head? != some '.' then none
    let minor ← digits? p.next
    let p ← lineEnd? (p.next.skipWhile Char.isDigit)
    return (.directive (major, minor), p)
  | _ => none
where
  digits? (p : Cursor) : Option Nat :=
    let digits := p.span Char.isDigit
    if digits.length ≤ 9 then natIn? 10 digits else none

namespace Scan

/-- Whether a plain scalar starts here. -/
def startsPlain (s : Scan) : Bool :=
  match s.place.rest with
  | [] => false
  | c :: rest =>
    if c == '-' then !rest.head?.any isInlineBlank
    else if c == '?' || c == ':' then !s.inFlow && !endsWord rest
    else !(isGap c || ",[]\x7b\x7d#&*!|>'\"%@\x60".toList.contains c)

/-- Reads the token that starts here. The fuel is more than the characters that are left. -/
def token? (s : Scan) (fuel : Nat) : Option Scan :=
  let p := s.place
  if p.column == 0 && p.head? == some '%' then do
    let s ← (s.closeBlocks 0).forgetKey?
    let (t, q) ← directiveToken? p
    return { s.emit t with place := q, keyAllowed := false }
  else if p.atMarks '-' then s.documentMarks? .documentStart
  else if p.atMarks '.' then s.documentMarks? .documentEnd
  else
    match p.rest with
    | [] => none
    | c :: rest =>
      if c == '[' then s.openBracket? .flowListStart
      else if c == '\x7b' then s.openBracket? .flowRecordStart
      else if c == ']' then s.closeBracket? .flowListEnd
      else if c == '\x7d' then s.closeBracket? .flowRecordEnd
      else if c == ',' then s.comma?
      else if c == '-' && endsWord rest then s.item?
      else if c == '?' && (s.inFlow || endsWord rest) then s.explicitKey?
      else if c == ':' && (s.inFlow || endsWord rest) then s.value?
      else if c == '*' then s.inline? (nameToken? .alias)
      else if c == '&' then s.inline? (nameToken? .anchor)
      else if c == '!' then s.inline? (tagToken? s.inFlow)
      else if c == '|' && !s.inFlow then s.block? false fuel
      else if c == '>' && !s.inFlow then s.block? true fuel
      else if c == '\'' || c == '"' then s.inline? (quotedToken? fuel)
      else if s.startsPlain then s.plain? fuel
      else none

/-- All tokens from here on, the first one first. -/
def tokens? : Nat → Scan → Option (List Token)
  | 0, _ => none
  | fuel + 1, s => do
    let s ← (s.skipIdle (fuel + 1)).dropPastKeys?
    let s := s.closeBlocks (s.place.column + 1)
    if s.place.atEnd then
      let s ← (s.closeBlocks 0).forgetKey?
      return s.tokens.reverse
    else
      let s ← s.token? (fuel + 1)
      tokens? fuel s

end Scan

/-- The tokens of a text. -/
def Token.ofText? (text : String) : Option (List Token) := do
  let p ← Cursor.start? text.toList
  (Scan.start p).tokens? (p.rest.length + 1)

end Yaml
end DomainModel
