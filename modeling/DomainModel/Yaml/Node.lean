import DomainModel.Yaml.Token
/-!
# YAML nodes

A text holds a single document, which is one node. Items and entries that are left out are empty
plain scalars. An alias stands for the node of its anchor; within that node it has no end, so it
cannot be read, nor can what lies deeper than 128 lists and records.
-/
namespace DomainModel
namespace Yaml

inductive Node where
  | plain (written : String)
  | quoted (text : String)
  | list (items : List Node)
  | record (entries : List (Node × Node))
  | tagged (tag : String) (node : Node)
  | unreadable

namespace Node

instance : Inhabited Node := ⟨plain ""⟩

def empty : Node := plain ""

/-- The tokens that are left, and the nodes of the anchors that have been passed. -/
structure Reading where
  tokens : List Token
  anchors : List (String × Node)

abbrev Reader (α : Type) := StateT Reading Option α

namespace Reader

/-- The next token, which stays. -/
def peek : Reader (Option Token) := return (← get).tokens.head?

def drop : Reader Unit := modify fun r => { r with tokens := r.tokens.drop 1 }

def setAnchor (name : String) (node : Node) : Reader Unit :=
  modify fun r => { r with anchors := (name, node) :: r.anchors }

/-- Reads a node, which is empty where one of these tokens comes next. -/
def orEmptyAt (ends : List Token) (read : Reader Node) : Reader Node := do
  if (← peek).any ends.contains then return empty else read

/-- The value after its mark, empty where there is no mark. -/
def valueOrEmptyAt (ends : List Token) (read : Reader Node) : Reader Node := do
  if (← peek) == some .value then
    drop
    orEmptyAt ends read
  else return empty

end Reader

open Reader

/-- The properties of a node: an anchor, a tag, or both in either order. -/
def readProperties : Reader (Option String × Option String) := do
  match (← get).tokens with
  | .anchor a :: .tag t :: rest =>
    modify fun r => { r with tokens := rest }
    return (some a, some t)
  | .tag t :: .anchor a :: rest =>
    modify fun r => { r with tokens := rest }
    return (some a, some t)
  | .anchor a :: rest =>
    modify fun r => { r with tokens := rest }
    return (some a, none)
  | .tag t :: rest =>
    modify fun r => { r with tokens := rest }
    return (none, some t)
  | _ => return (none, none)

def withTag (tag : Option String) (node : Node) : Node :=
  match tag, node with
  | none, node => node
  | some "!", .plain written => plain written
  | some "!", .quoted text => quoted text
  | some t, node => tagged t node

/-- The parts of a record after which a key or value is left out. -/
def blockPartEnds : List Token := [.key, .value, .blockEnd]

mutual

/-- One node. Outside brackets it may be a block, and the value of a key may be a list whose items
stand at the column of the key. -/
def read (fuel : Nat) (block atKey : Bool) : Reader Node := do
  match fuel with
  | 0 => failure
  | fuel + 1 =>
    match ← peek with
    | some (.alias name) =>
      drop
      match (← get).anchors.lookup name with
      | some node => return node
      | none => failure
    | _ =>
      let (anchor, tag) ← readProperties
      if let some name := anchor then setAnchor name unreadable
      let node := withTag tag (← readContent fuel block atKey (anchor.isSome || tag.isSome))
      if let some name := anchor then setAnchor name node
      return node

/-- A node without its properties, which may also stand for themselves. -/
def readContent (fuel : Nat) (block atKey hasProperties : Bool) : Reader Node := do
  match fuel with
  | 0 => failure
  | fuel + 1 =>
    match ← peek with
    | some .item =>
      if atKey then return list (← readItemsAtKey fuel)
      else if hasProperties then return empty
      else failure
    | some (.plain written) =>
      drop
      return plain written
    | some (.quoted text) =>
      drop
      return quoted text
    | some .flowListStart =>
      drop
      return list (← readFlowItems fuel true)
    | some .flowRecordStart =>
      drop
      return record (← readFlowEntries fuel true)
    | some .blockListStart =>
      if block then
        drop
        return list (← readItems fuel)
      else if hasProperties then return empty
      else failure
    | some .blockRecordStart =>
      if block then
        drop
        return record (← readEntries fuel)
      else if hasProperties then return empty
      else failure
    | _ => if hasProperties then return empty else failure

/-- The items of a block of its own. -/
def readItems (fuel : Nat) : Reader (List Node) := do
  match fuel with
  | 0 => failure
  | fuel + 1 =>
    match ← peek with
    | some .item =>
      drop
      let node ← orEmptyAt [.item, .blockEnd] (read fuel true false)
      return node :: (← readItems fuel)
    | some .blockEnd =>
      drop
      return []
    | _ => failure

/-- The items that stand at the column of their key. -/
def readItemsAtKey (fuel : Nat) : Reader (List Node) := do
  match fuel with
  | 0 => failure
  | fuel + 1 =>
    if (← peek) == some .item then
      drop
      let node ← orEmptyAt (.item :: blockPartEnds) (read fuel true false)
      return node :: (← readItemsAtKey fuel)
    else return []

def readEntries (fuel : Nat) : Reader (List (Node × Node)) := do
  match fuel with
  | 0 => failure
  | fuel + 1 =>
    match ← peek with
    | some .key =>
      drop
      let key ← orEmptyAt blockPartEnds (read fuel true true)
      let value ← valueOrEmptyAt blockPartEnds (read fuel true true)
      return (key, value) :: (← readEntries fuel)
    | some .blockEnd =>
      drop
      return []
    | _ => failure

/-- The items up to the closing bracket, with a comma before each but the first. A key among them
makes a record of one entry. -/
def readFlowItems (fuel : Nat) (first : Bool) : Reader (List Node) := do
  match fuel with
  | 0 => failure
  | fuel + 1 =>
    if (← peek) == some .flowListEnd then
      drop
      return []
    else
      if !first then
        if (← peek) == some .comma then drop else failure
      match ← peek with
      | some .flowListEnd =>
        drop
        return []
      | some .key =>
        drop
        let entry ← readPair fuel
        return record [entry] :: (← readFlowItems fuel false)
      | _ =>
        let node ← read fuel false false
        return node :: (← readFlowItems fuel false)

/-- The key and the value of a pair in a list. Where the key is missing, so is the token that tells
it. -/
def readPair (fuel : Nat) : Reader (Node × Node) := do
  match fuel with
  | 0 => failure
  | fuel + 1 =>
    let key ←
      match ← peek with
      | some .value | some .comma | some .flowListEnd =>
        drop
        pure empty
      | _ => read fuel false false
    let value ← valueOrEmptyAt [.comma, .flowListEnd] (read fuel false false)
    return (key, value)

/-- The entries up to the closing brace, with a comma before each but the first. -/
def readFlowEntries (fuel : Nat) (first : Bool) : Reader (List (Node × Node)) := do
  match fuel with
  | 0 => failure
  | fuel + 1 =>
    if (← peek) == some .flowRecordEnd then
      drop
      return []
    else
      if !first then
        if (← peek) == some .comma then drop else failure
      match ← peek with
      | some .flowRecordEnd =>
        drop
        return []
      | some .key =>
        drop
        let ends : List Token := [.comma, .flowRecordEnd]
        let key ← orEmptyAt (.value :: ends) (read fuel false false)
        let value ← valueOrEmptyAt ends (read fuel false false)
        return (key, value) :: (← readFlowEntries fuel false)
      | _ =>
        let key ← read fuel false false
        return (key, empty) :: (← readFlowEntries fuel false)

end

/-- The versions of the format that a directive may name. -/
def isVersion (version : Nat × Nat) : Bool := version == (1, 1) || version == (1, 2)

/-- Whether the first document starts with marks, before which its version may stand. -/
def readStart : Reader Bool := do
  match (← get).tokens with
  | .directive version :: .documentStart :: rest =>
    if !isVersion version then failure
    modify fun r => { r with tokens := rest }
    return true
  | .documentStart :: rest =>
    modify fun r => { r with tokens := rest }
    return true
  | _ => return false

/-- The single node of a text. -/
def readDocument (fuel : Nat) : Reader Node := do
  let isMarked ← readStart
  match ← peek with
  | none => return empty
  | some .documentStart => if isMarked then return empty else failure
  | some .documentEnd => if isMarked then return empty else failure
  | _ => read fuel true false

mutual

/-- The node as far as `depth` lists and records within each other go. -/
def limited (depth : Nat) : Node → Node
  | list items =>
    match depth with
    | 0 => unreadable
    | depth + 1 => list (limitedItems depth items)
  | record entries =>
    match depth with
    | 0 => unreadable
    | depth + 1 => record (limitedEntries depth entries)
  | tagged tag node => tagged tag (limited depth node)
  | node => node

def limitedItems (depth : Nat) : List Node → List Node
  | [] => []
  | node :: rest => limited depth node :: limitedItems depth rest

def limitedEntries (depth : Nat) : List (Node × Node) → List (Node × Node)
  | [] => []
  | (key, value) :: rest =>
    (limited depth key, limited depth value) :: limitedEntries depth rest

end

/-- The deepest nesting of lists and records that is read. -/
def maxDepth : Nat := 128

/-- The single document of a text. -/
def parse (text : String) : Option Node := do
  let tokens ← Token.ofText? text
  let (node, left) ← (readDocument (4 * tokens.length + 4)).run ⟨tokens, []⟩
  if left.tokens.all (· == .documentEnd) then return node.limited maxDepth else none

end Node
end Yaml
end DomainModel
