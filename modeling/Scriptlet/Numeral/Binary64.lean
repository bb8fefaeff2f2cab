/-!
Binary floating-point numbers of 64 bits, with the decimal they are nearest to. A magnitude is its
word without the sign bit, so the next magnitude has the next word, and rounding that carries into
the exponent needs no case of its own.
-/
namespace Scriptlet

/-- Sign, eleven bits of exponent, and 52 of fraction. -/
structure Binary64 where
  word : UInt64
  deriving DecidableEq, Inhabited

namespace Binary64

/-- The least word with a one in the exponent: 2⁵². -/
def exponentUnit : Nat := 0x10000000000000

/-- The word of the infinite magnitude. -/
def infinity : Nat := 2047 * exponentUnit

/-- The word of the sign alone: 2⁶³. -/
def signBit : Nat := 0x8000000000000000

/-- Magnitudes past the infinite one are infinite. -/
def ofMagnitude (negative : Bool) (magnitude : Nat) : Binary64 :=
  ⟨UInt64.ofNat ((if negative then signBit else 0) + min magnitude infinity)⟩

def nan : Binary64 := ⟨UInt64.ofNat (infinity + exponentUnit / 2)⟩

def isNegative (x : Binary64) : Bool := signBit ≤ x.word.toNat

def magnitude (x : Binary64) : Nat := x.word.toNat % signBit

/-- A finite magnitude is `m * 2 ^ q` for the pair `(m, q)`. -/
def scaled (magnitude : Nat) : Nat × Int :=
  if magnitude < exponentUnit then (magnitude, -1074)
  else (exponentUnit + magnitude % exponentUnit, (magnitude / exponentUnit : Nat) - 1075)

/-- The nearest natural number to `a / b`, the even one of two. -/
def roundHalfEven (a b : Nat) : Nat :=
  if 2 * (a % b) < b ∨ 2 * (a % b) = b ∧ a / b % 2 = 0 then a / b else a / b + 1

/-- The largest `e` with `2 ^ e ≤ a / b`, for positive `a` and `b`. -/
def binaryLog (a b : Nat) : Int :=
  let e : Int := a.log2 - b.log2
  if a <<< (-e).toNat < b <<< e.toNat then e - 1 else e

/-- The magnitude nearest to `a / b`, the even one of two. -/
def nearestMagnitude (a b : Nat) : Nat :=
  if a = 0 then 0
  else
    let q := max (binaryLog a b - 52) (-1074)
    (q + 1074).toNat * exponentUnit + roundHalfEven (a <<< (-q).toNat) (b <<< q.toNat)

/-- The number nearest to `digits * 10 ^ exponent`. What is far out of range is not computed. -/
def ofDecimal (negative : Bool) (digits : Nat) (exponent : Int) : Binary64 :=
  let length : Int := (Nat.toDigits 10 digits).length
  ofMagnitude negative <|
    if digits = 0 ∨ length + exponent < -330 then 0
    else if 310 < length + exponent then infinity
    else nearestMagnitude (digits * Nat.pow 10 exponent.toNat) (Nat.pow 10 (-exponent).toNat)

end Binary64

end Scriptlet
