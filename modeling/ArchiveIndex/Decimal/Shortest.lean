import ArchiveIndex.Decimal.Binary64
import ArchiveIndex.Numeral

/-!
# The Shortest Decimal

A finite binary value stands for all decimals that round to it. They form an interval around it,
which holds its ends exactly if the significand is even, for then a tie rounds to it. The
shortest decimal of the interval is found on grids: for one digit, two digits and so on, the
two neighbours of the value on the grid of that many digits are tested, and the nearer one wins
if both lie in the interval; halfway between them the even one does. If any decimal on a grid
lies in the interval, a neighbour of the value does, so no shorter decimal is missed.
-/

namespace ArchiveIndex.Shortest

/-- A positive decimal `0.d₁d₂… · 10 ^ (exponent + 1)`: its digits, and the exponent of the
first. -/
structure Scientific where
  digits : List Char
  exponent : Int
deriving DecidableEq

/-- A positive fraction. -/
structure Fraction where
  num : Nat
  den : Nat

/-- The fraction `n · 2 ^ e`. -/
def Fraction.ofBinary (n : Nat) (e : Int) : Fraction :=
  if e < 0 then ⟨n, Nat.pow 2 e.natAbs⟩ else ⟨n * Nat.pow 2 e.natAbs, 1⟩

/-- The fraction `n · 10 ^ e`. -/
def Fraction.ofDecimal (n : Nat) (e : Int) : Fraction :=
  if e < 0 then ⟨n, Nat.pow 10 e.natAbs⟩ else ⟨n * Nat.pow 10 e.natAbs, 1⟩

def Fraction.le (a b : Fraction) : Bool := a.num * b.den ≤ b.num * a.den

def Fraction.lt (a b : Fraction) : Bool := a.num * b.den < b.num * a.den

/-- The distance between two fractions. -/
def Fraction.dist (a b : Fraction) : Fraction :=
  ⟨(a.num * b.den - b.num * a.den) + (b.num * a.den - a.num * b.den), a.den * b.den⟩

/-- The decimals that round to a binary value. -/
structure Interval where
  lower : Fraction
  upper : Fraction
  closed : Bool

def Interval.contains (i : Interval) (x : Fraction) : Bool :=
  if i.closed then i.lower.le x && x.le i.upper else i.lower.lt x && x.lt i.upper

/-- The interval of `significand · 2 ^ exponent`, in quarters of a unit of the last place. Below
a power of two the values stand twice as close, so the lower half is a quarter there. -/
def intervalOf (significand : Nat) (exponent : Int) : Interval where
  lower :=
    .ofBinary
      (if 2 * significand = Binary64.significandBound ∧ Binary64.leastExponent < exponent then
        4 * significand - 1
      else 4 * significand - 2)
      (exponent - 2)
  upper := .ofBinary (4 * significand + 2) (exponent - 2)
  closed := significand % 2 == 0

/-- The exponent of the first digit of a positive fraction. Below one it is found from the
inverse, as the digits of the greatest natural number that is less than it. -/
def exponentOf (x : Fraction) : Int :=
  if x.den ≤ x.num then ((Numeral.ofNat (x.num / x.den)).length : Int) - 1
  else -((Numeral.ofNat ((x.den - 1) / x.num)).length : Int)

/-- The decimals of a grid next to a value: the one not above it and the one above it, in units
of the grid. -/
structure Neighbours where
  below : Nat
  above : Nat

/-- The neighbour nearer to `x`, where `x₁` and `x₂` are their values; halfway between them the
even one. -/
def Neighbours.nearer (n : Neighbours) (x x₁ x₂ : Fraction) : Nat :=
  if (x.dist x₁).lt (x.dist x₂) then n.below
  else if (x.dist x₂).lt (x.dist x₁) then n.above
  else if n.below % 2 = 0 then n.below
  else n.above

/-- The best multiple of `10 ^ e` that rounds to the value `x` of the interval, if there is one:
of the two neighbours of `x` the nearer that lies in the interval. -/
def onGrid (x : Fraction) (i : Interval) (e : Int) : Option (Nat × Int) :=
  let unit := Fraction.ofDecimal 1 e
  let below := x.num * unit.den / (x.den * unit.num)
  let n : Neighbours := ⟨below, below + 1⟩
  let x₁ := Fraction.ofDecimal n.below e
  let x₂ := Fraction.ofDecimal n.above e
  match i.contains x₁, i.contains x₂ with
  | true, true => some (n.nearer x x₁ x₂, e)
  | true, false => some (n.below, e)
  | false, true => some (n.above, e)
  | false, false => none

/-- A decimal `n · 10 ^ e` without zeros at its end. -/
def Scientific.ofDecimal (n : Nat) (e : Int) : Scientific :=
  let digits := Numeral.ofNat n
  { digits := (digits.reverse.dropWhile (· == '0')).reverse
    exponent := e + digits.length - 1 }

/-- The shortest decimal that rounds to the positive value `significand · 2 ^ exponent`. No
value needs more than 17 digits. -/
def shortest (significand : Nat) (exponent : Int) : Scientific :=
  let x := Fraction.ofBinary significand exponent
  let i := intervalOf significand exponent
  let top := exponentOf x
  match (List.range 17).findSome? fun further : Nat => onGrid x i (top - further) with
  | some (n, e) => .ofDecimal n e
  | none => .ofDecimal significand 0

end ArchiveIndex.Shortest
