/-!
# Binary floating point with 53 bits

A finite double as sign, mantissa and exponent: `± mantissa · 2 ^ exponent`. Every function below
gives the canonical form, in which the mantissa has 53 bits or the exponent is the least one.
Results are rounded to the nearest double, halves to the even mantissa.
-/

namespace TxGraph

structure Binary64 where
  negative : Bool
  mantissa : Nat
  exponent : Int
  deriving DecidableEq, Repr, Inhabited

namespace Binary64

/-- The exponent of the subnormal doubles. -/
def leastExponent : Int := -1074

def greatestExponent : Int := 971

/-- The least mantissa of 53 bits. -/
def leastNormal : Nat := 4503599627370496

def zero (negative : Bool) : Binary64 :=
  ⟨negative, 0, leastExponent⟩

def neg (x : Binary64) : Binary64 :=
  { x with negative := !x.negative }

def isZero (x : Binary64) : Bool :=
  x.mantissa == 0

/-- The quotient rounded to the nearest number, a half to the even one. -/
def roundDiv (num den : Nat) : Nat :=
  let q := num / den
  let r := num % den
  if den < 2 * r then q + 1
  else if 2 * r < den then q
  else q + q % 2

/-- `num / den · 2 ^ -e`, as numerator and denominator. -/
def scaled (num den : Nat) (e : Int) : Nat × Nat :=
  if 0 ≤ e then (num, den * Nat.pow 2 e.toNat) else (num * Nat.pow 2 (-e).toNat, den)

/-- The exponent at which `num / den` has an integral part of 53 bits, unless that is below the
least one. -/
def exponentFor (num den : Nat) : Int :=
  let guess : Int := (num.log2 : Int) - (den.log2 : Int) - 52
  let (n, d) := scaled num den guess
  max leastExponent (if n < d * leastNormal then guess - 1 else guess)

/-- The double nearest to `num / den`; `none` when that is out of range. -/
def ofRatio (negative : Bool) (num den : Nat) : Option Binary64 :=
  if num == 0 then some (zero negative)
  else
    let e := exponentFor num den
    let (n, d) := scaled num den e
    let m := roundDiv n d
    let (m, e) := if m == 2 * leastNormal then (leastNormal, e + 1) else (m, e)
    if greatestExponent < e then none else some ⟨negative, m, e⟩

/-- The magnitude as numerator and denominator. -/
def ratio (x : Binary64) : Nat × Nat :=
  if 0 ≤ x.exponent then (x.mantissa * Nat.pow 2 x.exponent.toNat, 1)
  else (x.mantissa, Nat.pow 2 (-x.exponent).toNat)

/-- The double nearest to an integer that is in range. -/
def ofInt (n : Int) : Binary64 :=
  (ofRatio (n < 0) n.natAbs 1).getD (zero false)

/-- The double nearest to a power of ten in range. -/
def powerOfTen (k : Nat) : Binary64 :=
  (ofRatio false (Nat.pow 10 k) 1).getD (zero false)

/-- The rounded product; `none` when it is out of range. -/
def mul (x y : Binary64) : Option Binary64 :=
  let (a, b) := x.ratio
  let (c, d) := y.ratio
  ofRatio (x.negative != y.negative) (a * c) (b * d)

/-- The rounded quotient by a nonzero double, for quotients in range. -/
def div (x y : Binary64) : Binary64 :=
  let (a, b) := x.ratio
  let (c, d) := y.ratio
  (ofRatio (x.negative != y.negative) (a * d) (b * c)).getD (zero false)

end Binary64

end TxGraph
