import Scriptlet.Numeral.Binary64

/-!
Decimal text of a floating-point number: the fewest digits that read back as it, and of those the
nearest; of two equally near the greater. Magnitudes from 10⁻⁴ up to 10¹⁶ are written with a point
and at least one digit on either side of it, the others with an exponent.
-/
namespace Scriptlet.Binary64

/-- `digits * 10 ^ exponent`. -/
structure Decimal where
  digits : Nat
  exponent : Int
  deriving DecidableEq

/-- The numbers that round to `m * 2 ^ q` lie between these, in units of `2 ^ (q - 2)`. Below a
power of two the next number is only half as far as above it. -/
def bounds (m : Nat) (q : Int) : Nat × Nat :=
  (4 * m - (if m = exponentUnit ∧ -1074 < q then 1 else 2), 4 * m + 2)

/-- Of the two multiples of `10 ^ k` next to `m * 2 ^ q`, the one that rounds back to it, and the
nearer one if both do. The bounds round to even, so they count if `m` is even. -/
def onGrid? (m : Nat) (q k : Int) : Option Nat :=
  let up := Nat.pow 10 (-k).toNat <<< (q - 2).toNat
  let down := Nat.pow 10 k.toNat <<< (2 - q).toNat
  let (low, high) := bounds m q
  let inside (c : Nat) : Bool :=
    if m % 2 = 0 then low * up ≤ c * down && c * down ≤ high * up
    else low * up < c * down && c * down < high * up
  let below := 4 * m * up / down
  match inside below, inside (below + 1) with
  | false, false => none
  | true, false => some below
  | false, true => some (below + 1)
  | true, true =>
    if 2 * (4 * m * up % down) < down then some below else some (below + 1)

/-- The first of the grids from `10 ^ k` down that has a number rounding back to `m * 2 ^ q`. -/
def descend (m : Nat) (q : Int) : Nat → Int → Decimal
  | 0, _ => ⟨0, 0⟩
  | limit + 1, k =>
    match onGrid? m q k with
    | some digits => ⟨digits, k⟩
    | none => descend m q limit (k - 1)

/-- The shortest decimal that rounds to `m * 2 ^ q`. The first grid tried is coarser than the
number, and seventeen digits are always enough. -/
def shortest (m : Nat) (q : Int) : Decimal :=
  descend m q 21 ((m.log2 + q) * 30103 / 100000 + 2)

def zeros (n : Nat) : List Char := List.replicate n '0'

/-- Digits with a point after the first `point` of them; zeros stand for missing digits. -/
def positional (digits : List Char) (point : Int) : List Char :=
  if point ≤ 0 then ['0', '.'] ++ zeros (-point).toNat ++ digits
  else if digits.length ≤ point then
    digits ++ zeros (point.toNat - digits.length) ++ ['.', '0']
  else digits.take point.toNat ++ '.' :: digits.drop point.toNat

/-- One digit before the point, which is left out if none follows, and the power of ten. -/
def scientific (digits : List Char) (exponent : Int) : List Char :=
  digits.take 1 ++ (if digits.length = 1 then [] else '.' :: digits.drop 1) ++
    'e' :: (toString exponent).toList

def Decimal.text (d : Decimal) : List Char :=
  let digits := Nat.toDigits 10 d.digits
  let point : Int := d.exponent + digits.length
  if -4 < point ∧ point ≤ 16 then positional digits point else scientific digits (point - 1)

def magnitudeText (magnitude : Nat) : List Char :=
  if magnitude = 0 then ['0', '.', '0']
  else if magnitude = infinity then ['i', 'n', 'f']
  else (shortest (scaled magnitude).1 (scaled magnitude).2).text

def text (x : Binary64) : String :=
  if infinity < x.magnitude then "NaN"
  else String.ofList ((if x.isNegative then ['-'] else []) ++ magnitudeText x.magnitude)

end Scriptlet.Binary64
