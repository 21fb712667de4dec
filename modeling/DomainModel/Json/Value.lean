import DomainModel.Number.Binary64
import DomainModel.Table
/-!
# JSON values

A value is a scalar, a list or a record. A record keeps the order of its entries and may repeat a
key, as a text may; the canonical form keeps the first place and the last value of each key.
-/
namespace DomainModel

/-- Whole numbers and binary64 numbers are different scalars, so `1` and `1.0` differ. -/
inductive Scalar where
  | null
  | bool (b : Bool)
  | int (n : Int)
  | float (x : Binary64)
  | text (s : String)
  deriving DecidableEq

inductive Json where
  | scalar (s : Scalar)
  | list (items : List Json)
  | record (entries : List (String × Json))

namespace Json

@[match_pattern] abbrev null : Json := .scalar .null
@[match_pattern] abbrev bool (b : Bool) : Json := .scalar (.bool b)
@[match_pattern] abbrev int (n : Int) : Json := .scalar (.int n)
@[match_pattern] abbrev text (s : String) : Json := .scalar (.text s)

instance : Inhabited Json := ⟨null⟩

def nat (n : Nat) : Json := int n

def texts (names : List String) : Json := list (names.map text)

/-- `null` for an absent value. -/
def orNull : Option Json → Json
  | none => null
  | some v => v

def optionalText (s : Option String) : Json := orNull (s.map text)

def optionalBool (b : Option Bool) : Json := orNull (b.map bool)

mutual

private def decEqValue : (a b : Json) → Decidable (a = b)
  | .scalar s, .scalar t => if h : s = t then isTrue (by rw [h]) else isFalse (by simp [h])
  | .scalar _, .list _ => isFalse nofun
  | .scalar _, .record _ => isFalse nofun
  | .list _, .scalar _ => isFalse nofun
  | .list a, .list b =>
    match decEqItems a b with
    | isTrue h => isTrue (by rw [h])
    | isFalse h => isFalse (by simpa using h)
  | .list _, .record _ => isFalse nofun
  | .record _, .scalar _ => isFalse nofun
  | .record _, .list _ => isFalse nofun
  | .record a, .record b =>
    match decEqEntries a b with
    | isTrue h => isTrue (by rw [h])
    | isFalse h => isFalse (by simpa using h)

private def decEqItems : (a b : List Json) → Decidable (a = b)
  | [], [] => isTrue rfl
  | [], _ :: _ => isFalse nofun
  | _ :: _, [] => isFalse nofun
  | x :: a, y :: b =>
    match decEqValue x y, decEqItems a b with
    | isTrue h, isTrue h' => isTrue (by rw [h, h'])
    | isFalse h, _ => isFalse (by simp [h])
    | _, isFalse h => isFalse (by simp [h])

private def decEqEntries : (a b : List (String × Json)) → Decidable (a = b)
  | [], [] => isTrue rfl
  | [], _ :: _ => isFalse nofun
  | _ :: _, [] => isFalse nofun
  | (k, x) :: a, (l, y) :: b =>
    match decEqValue x y, decEqEntries a b with
    | isTrue h, isTrue h' =>
      if hk : k = l then isTrue (by rw [h, h', hk]) else isFalse (by simp [hk])
    | isFalse h, _ => isFalse (by simp [h])
    | _, isFalse h => isFalse (by simp [h])

end

instance : DecidableEq Json := decEqValue

mutual

/-- Each record with every key once: at its first place, with its last value. -/
def canonical : Json → Json
  | .scalar s => .scalar s
  | .list items => .list (canonicalItems items)
  | .record entries => .record (canonicalEntries [] entries)

def canonicalItems : List Json → List Json
  | [] => []
  | v :: rest => canonical v :: canonicalItems rest

def canonicalEntries (done : List (String × Json)) : List (String × Json) → List (String × Json)
  | [] => done
  | (k, v) :: rest => canonicalEntries (Table.put k (canonical v) done) rest

end

def Scalar.same : Scalar → Scalar → Bool
  | .float x, .float y => x.same y
  | s, t => s == t

mutual

/-- Equality of values: the order of entries does not count, and the two zeros are equal. -/
def same : Json → Json → Bool
  | .scalar s, .scalar t => Scalar.same s t
  | .list a, .list b => sameItems a b
  | .record a, .record b => a.length == b.length && sameEntries a b
  | _, _ => false

def sameItems : List Json → List Json → Bool
  | [], [] => true
  | x :: a, y :: b => same x y && sameItems a b
  | _, _ => false

/-- Every entry of the first record stands in the second with the same value. -/
def sameEntries : List (String × Json) → List (String × Json) → Bool
  | [], _ => true
  | (k, v) :: rest, b =>
    (match Table.lookup k b with
      | some w => same v w
      | none => false) && sameEntries rest b

end

def text? : Json → Option String
  | .text s => some s
  | _ => none

def bool? : Json → Option Bool
  | .bool b => some b
  | _ => none

def isNull : Json → Bool
  | .null => true
  | _ => false

/-- The value of a record under `key`; the last one if the key is repeated. -/
def get? (key : String) : Json → Option Json
  | .record entries => Table.lookup key entries.reverse
  | _ => none

end Json
end DomainModel
