import ArchiveIndex.Decimal.Shortest

/-!
# Floating-Point Numbers as Text

A value shows as the shortest decimal that reads back as it. It is written out in full, with at
least one digit after the point, if its first digit stands between the fourth place after the
point and the sixteenth before it; otherwise it is written with an exponent of at least two
digits.
-/

namespace ArchiveIndex.Binary64

/-- A decimal written out around its point. -/
def positional (digits : List Char) (exponent : Int) : List Char :=
  if exponent < 0 then
    '0' :: '.' :: List.replicate (exponent.natAbs - 1) '0' ++ digits
  else
    let whole := exponent.natAbs + 1
    let padded := digits ++ List.replicate (whole - digits.length) '0'
    let fraction := padded.drop whole
    padded.take whole ++ '.' :: (if fraction = [] then ['0'] else fraction)

/-- A decimal written with an exponent. -/
def scientific (digits : List Char) (exponent : Int) : List Char :=
  let point := if digits.length ≤ 1 then [] else ['.']
  let sign := if exponent < 0 then '-' else '+'
  digits.take 1 ++ point ++ digits.drop 1 ++
    'e' :: sign :: (Numeral.ofNat exponent.natAbs).leftpad 2 '0'

/-- The text of a value without its sign. -/
def magnitude (significand : Nat) (exponent : Int) : List Char :=
  if significand = 0 then ['0', '.', '0']
  else
    let d := Shortest.shortest significand exponent
    if -4 ≤ d.exponent ∧ d.exponent < 16 then positional d.digits d.exponent
    else scientific d.digits d.exponent

/-- A minus sign in front of a negative number. -/
def signed (negative : Bool) (text : List Char) : List Char :=
  if negative then '-' :: text else text

/-- The text of a value. -/
def text : Binary64 → List Char
  | finite negative significand exponent => signed negative (magnitude significand exponent)
  | infinity negative => signed negative ['i', 'n', 'f']
  | nan => ['n', 'a', 'n']

end ArchiveIndex.Binary64
