/-!
# Places in a YAML text

A text is read from left to right with the line and the column of each character in view, since
the column decides what belongs together. All line breaks but two are line feeds once the text is
prepared.
-/
namespace DomainModel
namespace Yaml

def isInlineBlank (c : Char) : Bool := c == ' ' || c == '\t'

def isBreak (c : Char) : Bool := c == '\n' || c == '\u2028' || c == '\u2029'

def isGap (c : Char) : Bool := isInlineBlank c || isBreak c

/-- Whether a word ends here: at a blank, a line break or the end of the text. -/
def endsWord : List Char → Bool
  | [] => true
  | c :: _ => isGap c

def isPrintable (c : Char) : Bool :=
  c == '\t' || c == '\n' || c == '\r' || ('\x20' ≤ c && c ≤ '\x7e') || c == '\u0085' ||
    ('\u00a0' ≤ c && c ≤ '\ufffd') || '\uffff' < c

/-- Carriage returns, alone or before a line feed, and next-line characters become line feeds. -/
def unifyBreaks : List Char → List Char
  | [] => []
  | '\r' :: '\n' :: rest => '\n' :: unifyBreaks rest
  | '\r' :: rest => '\n' :: unifyBreaks rest
  | '\u0085' :: rest => '\n' :: unifyBreaks rest
  | c :: rest => c :: unifyBreaks rest

/-- What is left of a text, and where that starts; the offset counts bytes. -/
structure Cursor where
  rest : List Char
  offset : Nat
  line : Nat
  column : Nat
  deriving DecidableEq

namespace Cursor

/-- The start of a text. All characters must be printable. -/
def start? (cs : List Char) : Option Cursor :=
  if cs.all isPrintable then some ⟨unifyBreaks cs, 0, 0, 0⟩ else none

def next (p : Cursor) : Cursor :=
  match p.rest with
  | [] => p
  | c :: rest =>
    let offset := p.offset + c.utf8Size
    if isBreak c then ⟨rest, offset, p.line + 1, 0⟩ else ⟨rest, offset, p.line, p.column + 1⟩

/-- The place some characters further on. -/
def skip : Nat → Cursor → Cursor
  | 0, p => p
  | n + 1, p => skip n p.next

/-- The characters from here on that satisfy `q`. -/
def span (p : Cursor) (q : Char → Bool) : List Char := p.rest.takeWhile q

def skipWhile (p : Cursor) (q : Char → Bool) : Cursor := p.skip (p.span q).length

def head? (p : Cursor) : Option Char := p.rest.head?

def atEnd (p : Cursor) : Bool := p.rest.isEmpty

def atBreak (p : Cursor) : Bool := p.head?.any isBreak

/-- Whether a line starts here with three marks that are a word of their own. -/
def atMarks (p : Cursor) (mark : Char) : Bool :=
  match p.rest with
  | a :: b :: c :: rest =>
    p.column == 0 && a == mark && b == mark && c == mark && endsWord rest
  | _ => false

/-- Whether a document starts or ends here. -/
def atDocumentMarks (p : Cursor) : Bool := p.atMarks '-' || p.atMarks '.'

end Cursor
end Yaml
end DomainModel
