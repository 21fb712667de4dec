import DomainModel.Reading
import DomainModel.Yaml.Node
/-!
# The core schema of YAML

A scalar is read as text where text is wanted. Elsewhere a plain scalar has the value that its form
in the core schema gives, and an empty one also stands for an empty list or record.
-/
namespace DomainModel
namespace Yaml

def isNullWord (s : String) : Bool :=
  s == "" || s == "null" || s == "Null" || s == "NULL" || s == "~"

def boolWord? (s : String) : Option Bool :=
  if s == "true" || s == "True" || s == "TRUE" then some true
  else if s == "false" || s == "False" || s == "FALSE" then some false
  else none

/-- Digits after a zero are no number. -/
def hasLeadingZero (cs : List Char) : Bool :=
  match cs with
  | '0' :: d :: rest => (d :: rest).all Char.isDigit
  | _ => false

/-- Digits without a sign: decimal, or after a mark for hexadecimal, octal or binary ones. -/
def magnitude? : List Char → Option Nat
  | '0' :: 'x' :: rest => natIn? 16 rest
  | '0' :: 'o' :: rest => natIn? 8 rest
  | '0' :: 'b' :: rest => natIn? 2 rest
  | cs => if hasLeadingZero cs then none else natIn? 10 cs

/-- A whole number with its sign; a written minus makes the second part true. -/
def signedNumber? : List Char → Option (Nat × Bool)
  | '+' :: rest => (magnitude? rest).map (·, false)
  | '-' :: rest => (magnitude? rest).map (·, true)
  | cs => (magnitude? cs).map (·, false)

/-- A whole number of up to 128 bits. It is absent beyond 64 bits, where it has no value. -/
def wholeNumber? (cs : List Char) : Option (Option Int) :=
  match signedNumber? cs with
  | some (n, false) =>
    if n < Nat.pow 2 64 then some (some n) else if n < Nat.pow 2 128 then some none else none
  | some (n, true) =>
    if n ≤ Nat.pow 2 63 then some (some (-n)) else if n ≤ Nat.pow 2 127 then some none else none
  | none => none

/-- Digits with at most one point among them, of which the point comes second. -/
def mantissa? (cs : List Char) : Option (List Char × List Char × List Char) :=
  let whole := cs.takeWhile Char.isDigit
  let rest := cs.dropWhile Char.isDigit
  match rest with
  | '.' :: rest =>
    let fraction := rest.takeWhile Char.isDigit
    if whole.isEmpty && fraction.isEmpty then none
    else some (whole, fraction, rest.dropWhile Char.isDigit)
  | rest => if whole.isEmpty then none else some (whole, [], rest)

def unsignedFloat? (negative : Bool) (cs : List Char) : Option Binary64 := do
  let (whole, fraction, rest) ← mantissa? cs
  let (exponent, rest) ← JsonToken.exponentPart? rest
  if rest.isEmpty then
    Decimal.toBinary64 negative
      ⟨JsonToken.digitsValue (whole ++ fraction), exponent.getD 0 - fraction.length⟩
  else none

def float? : List Char → Option Binary64
  | '-' :: rest => if hasLeadingZero rest then none else unsignedFloat? true rest
  | '+' :: rest => if hasLeadingZero rest then none else unsignedFloat? false rest
  | cs => if hasLeadingZero cs then none else unsignedFloat? false cs

/-- Infinities and the value that is no number. -/
def isUnlimitedWord (s : String) : Bool :=
  [".inf", ".Inf", ".INF", "+.inf", "+.Inf", "+.INF", "-.inf", "-.Inf", "-.INF", ".nan", ".NaN",
    ".NAN"].contains s

def floatContent? (written : String) : Option Content :=
  if isUnlimitedWord written then some .unlimited
  else (float? written.toList).map fun x => .scalar (.float x)

/-- The value of a plain scalar, in the first of the forms that it has. -/
def plainContent? (written : String) : Option Content :=
  if isNullWord written then some (.scalar .null)
  else
    match boolWord? written, wholeNumber? written.toList with
    | some b, _ => some (.scalar (.bool b))
    | none, some n => n.map fun n => .scalar (.int n)
    | none, none => some ((floatContent? written).getD (.scalar (.text written)))

/-- Whether a tag is a program's own; such a tag leaves nothing to read a value from. -/
def isLocalTag (tag : String) : Bool := tag.toList.head? == some '!'

/-- The value of a scalar with a tag, which must have the form of its type. -/
def taggedContent? (tag written : String) : Option Content :=
  if isLocalTag tag then none
  else if tag = coreTag "null" then
    if isNullWord written then some (.scalar .null) else none
  else if tag = coreTag "bool" then (boolWord? written).map fun b => .scalar (.bool b)
  else if tag = coreTag "int" then
    (wholeNumber? written.toList).join.map fun n => .scalar (.int n)
  else if tag = coreTag "float" then floatContent? written
  else some (.scalar (.text written))

namespace Node

/-- The text of a scalar of any style. -/
def text? : Node → Option String
  | plain written => some written
  | quoted text => some text
  | tagged _ node => text? node
  | _ => none

def isNull : Node → Bool
  | plain written => isNullWord written
  | tagged tag node => tag == coreTag "null" && isNull node
  | _ => false

def bool? : Node → Option Bool
  | plain written => boolWord? written
  | tagged _ node => bool? node
  | _ => none

def items? : Node → Option (List Node)
  | list items => some items
  | plain "" => some []
  | tagged _ node => items? node
  | _ => none

/-- The entries, if every key is a scalar. -/
def textKeys? : List (Node × Node) → Option (List (String × Node))
  | [] => some []
  | (key, node) :: rest =>
    match text? key, textKeys? rest with
    | some key, some entries => some ((key, node) :: entries)
    | _, _ => none

def entries? : Node → Option (List (String × Node))
  | record entries => textKeys? entries
  | plain "" => some []
  | tagged _ node => entries? node
  | _ => none

/-- A word, or a program's own tag of nothing. -/
def choice? : Node → Option String
  | tagged tag node =>
    if isLocalTag tag then
      if (text? node).any isNullWord then some (String.ofList (tag.toList.drop 1)) else none
    else text? node
  | node => text? node

mutual

/-- The value of a node all of whose keys are scalars. -/
def toJson? : Node → Option Json
  | plain written => plainContent? written >>= Content.toJson?
  | quoted text => some (.text text)
  | list items => (itemsToJson? items).map Json.list
  | record entries => (entriesToJson? entries).map Json.record
  | tagged tag node =>
    match text? node with
    | some written => taggedContent? tag written >>= Content.toJson?
    | none => if isLocalTag tag then none else toJson? node
  | unreadable => none

def itemsToJson? : List Node → Option (List Json)
  | [] => some []
  | node :: rest =>
    match toJson? node, itemsToJson? rest with
    | some v, some vs => some (v :: vs)
    | _, _ => none

def entriesToJson? : List (Node × Node) → Option (List (String × Json))
  | [] => some []
  | (key, node) :: rest =>
    match text? key, toJson? node, entriesToJson? rest with
    | some key, some v, some vs => some ((key, v) :: vs)
    | _, _, _ => none

end

/-- Whether a scalar is written with a minus, so that it counts nothing. -/
def isMinus : Node → Bool
  | plain written => written.toList.head? == some '-'
  | tagged _ node => isMinus node
  | _ => false

/-- What a key with this content stands for in a record whose kind is not known yet. -/
def keyOf (key : Node) : Content → ContentKey
  | .scalar (.text s) => .name s
  | .scalar (.int n) => if isMinus key then .other else .index n.toNat
  | _ => .other

mutual

def toContent? : Node → Option Content
  | plain written => plainContent? written
  | quoted text => some (.scalar (.text text))
  | list items => (itemsToContent? items).map Content.list
  | record entries => (entriesToContent? entries).map Content.record
  | tagged tag node =>
    match text? node with
    | some written => taggedContent? tag written
    | none => if isLocalTag tag then none else toContent? node
  | unreadable => none

def itemsToContent? : List Node → Option (List Content)
  | [] => some []
  | node :: rest =>
    match toContent? node, itemsToContent? rest with
    | some c, some cs => some (c :: cs)
    | _, _ => none

def entriesToContent? : List (Node × Node) → Option (List (ContentKey × Content))
  | [] => some []
  | (key, node) :: rest =>
    match toContent? key, toContent? node, entriesToContent? rest with
    | some k, some c, some cs => some ((keyOf key k, c) :: cs)
    | _, _, _ => none

end

def contentKeys? : List (Node × Node) → Option (List (ContentKey × Node))
  | [] => some []
  | (key, node) :: rest =>
    match toContent? key, contentKeys? rest with
    | some k, some entries => some ((keyOf key k, node) :: entries)
    | _, _ => none

def contentEntries? : Node → Option (List (ContentKey × Node))
  | record entries => contentKeys? entries
  | tagged tag node => if isLocalTag tag then none else contentEntries? node
  | _ => none

end Node

instance : SourceTree Node where
  isNull := Node.isNull
  text? := Node.text?
  bool? := Node.bool?
  items? := Node.items?
  entries? := Node.entries?
  named? := fun _ => Node.entries?
  positional? := fun _ => none
  choice? := fun _ => Node.choice?
  json? := Node.toJson?
  content? := Node.toContent?
  contentEntries? := Node.contentEntries?

end Yaml
end DomainModel
