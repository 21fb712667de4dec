import DomainModel.Number.Binary64
/-!
# Decimals of binary64 numbers

Reading rounds a decimal to the nearest number. Writing takes the fewest digits that read back, and
of the decimals of that length the nearest one; a record says how the digits are laid out.
-/
namespace DomainModel

/-- The number `digits · 10 ^ exponent`. -/
structure Decimal where
  digits : Nat
  exponent : Int
  deriving DecidableEq, Repr

namespace Decimal

def places (n : Nat) : Nat := (Nat.toDigits 10 n).length

def ratio (d : Decimal) : Nat × Nat :=
  if d.exponent < 0 then (d.digits, Nat.pow 10 d.exponent.natAbs)
  else (d.digits * Nat.pow 10 d.exponent.natAbs, 1)

/-- The nearest binary64 number; none if it would not be finite. Decimals of 310 and more places
before the point are beyond all numbers, and those with 330 zeros after it are below all. -/
def toBinary64 (negative : Bool) (d : Decimal) : Option Binary64 :=
  let position := d.exponent + places d.digits
  if d.digits = 0 || position < -330 then some (Binary64.zero negative)
  else if position > 310 then none
  else Binary64.ofRatio negative d.ratio.1 d.ratio.2

/-- The decimal without trailing zeros. -/
def normalized : Nat → Decimal → Decimal
  | 0, d => d
  | fuel + 1, d =>
    if d.digits % 10 == 0 && d.digits != 0 then normalized fuel ⟨d.digits / 10, d.exponent + 1⟩
    else d

/-- All digits of the absolute value. -/
def exact (x : Binary64) : Decimal :=
  if x.exponent < 0 then ⟨x.significand * Nat.pow 5 x.exponent.natAbs, x.exponent⟩
  else ⟨x.significand * Nat.pow 2 x.exponent.natAbs, 0⟩

/-- The number of places before the point, or minus the number of zeros after it. -/
def positionOf (num den : Nat) : Int :=
  let guess := (((num.log2 : Int) - (den.log2 : Int)) * 30103).fdiv 100000
  let below (k : Int) : Bool :=
    if k < 0 then num * Nat.pow 10 k.natAbs < den else num < den * Nat.pow 10 k.natAbs
  ([guess - 1, guess, guess + 1].find? below).getD (guess + 2)

/-- The two neighbours of the absolute value on the grid of `count` digits, if they read back. -/
def candidates (x : Binary64) (position : Int) (count : Nat) : List Decimal :=
  let (num, den) := x.ratio
  let step := position - count
  let low :=
    if step < 0 then num * Nat.pow 10 step.natAbs / den else num / (den * Nat.pow 10 step.natAbs)
  [⟨low, step⟩, ⟨low + 1, step⟩].filter fun d => d.toBinary64 x.negative == some x

/-- Whether `num / den` is nearer to `d.digits + 1` steps than to `d.digits`; a tie goes to the
even digit. -/
def upperNearer (x : Binary64) (d : Decimal) : Bool :=
  let (num, den) := x.ratio
  let (n, m) :=
    if d.exponent < 0 then (num * Nat.pow 10 d.exponent.natAbs, den)
    else (num, den * Nat.pow 10 d.exponent.natAbs)
  let twice := 2 * n
  let middle := (2 * d.digits + 1) * m
  twice > middle || (twice == middle && d.digits % 2 == 1)

def nearer (x : Binary64) : List Decimal → Option Decimal
  | [] => none
  | [d] => some d
  | low :: high :: _ => some (if upperNearer x low then high else low)

/-- The fewest digits that read back as `x`, without its sign. -/
def shortest (x : Binary64) : Decimal :=
  let position := positionOf x.ratio.1 x.ratio.2
  let found := (List.range 17).findSome? fun n => nearer x (candidates x position (n + 1))
  let d := found.getD (exact x)
  normalized (places d.digits) d

end Decimal

/-- How digits are laid out: positionally where the place of the point lies between the two bounds,
else with an exponent. -/
structure DecimalLayout where
  lowest : Int
  highest : Int
  positiveExponent : String

namespace DecimalLayout

private def zeros (n : Nat) : List Char := List.replicate n '0'

/-- The text of a nonzero decimal: a point is always written or else an exponent. -/
def digitText (layout : DecimalLayout) (d : Decimal) : List Char :=
  let digits := Nat.toDigits 10 d.digits
  let position : Int := d.exponent + digits.length
  if 0 < position && position ≤ layout.highest then
    if 0 ≤ d.exponent then digits ++ zeros d.exponent.toNat ++ ['.', '0']
    else digits.take position.toNat ++ ['.'] ++ digits.drop position.toNat
  else if layout.lowest < position && position ≤ 0 then
    ['0', '.'] ++ zeros position.natAbs ++ digits
  else
    let fraction :=
      match digits.drop 1 with
      | [] => []
      | rest => '.' :: rest
    let exponent := position - 1
    let sign := if exponent < 0 then ['-'] else layout.positiveExponent.toList
    digits.take 1 ++ fraction ++ ['e'] ++ sign ++ Nat.toDigits 10 exponent.natAbs

def text (layout : DecimalLayout) (x : Binary64) : List Char :=
  let sign := if x.negative then ['-'] else []
  if x.isZero then sign ++ ['0', '.', '0'] else sign ++ layout.digitText (Decimal.shortest x)

end DecimalLayout
end DomainModel
