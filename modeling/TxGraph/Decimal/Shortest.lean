import TxGraph.Decimal.Binary64

/-!
# Shortest decimals

The fewest decimal digits that read back as the same double, and of these the nearest to it. The
reals that round to a double form an interval around it, whose ends count when the mantissa is
even. For one digit, two digits, and so on, the two neighbours of the double on the decimal grid
are tested against the interval.
-/

namespace TxGraph.Decimal

/-- A decimal `0.d₁d₂… · 10 ^ point` with its digits most significant first. -/
structure Digits where
  digits : List Char
  point : Int
  deriving DecidableEq, Repr

/-- The reals that round to a nonzero double, over a common denominator. -/
structure Interval where
  low : Nat
  value : Nat
  high : Nat
  den : Nat
  closed : Bool

/-- The interval of `mantissa · 2 ^ exponent`. Below a power of two the doubles lie twice as
close. -/
def Interval.of (x : Binary64) : Interval :=
  let (unit, den) :=
    if 2 ≤ x.exponent then (Nat.pow 2 (x.exponent - 2).toNat, 1)
    else (1, Nat.pow 2 (2 - x.exponent).toNat)
  let below := if x.mantissa == Binary64.leastNormal && Binary64.leastExponent < x.exponent then 1 else 2
  { low := (4 * x.mantissa - below) * unit
    value := 4 * x.mantissa * unit
    high := (4 * x.mantissa + 2) * unit
    den := den
    closed := x.mantissa % 2 == 0 }

/-- Whether `n / d` rounds to the double. -/
def Interval.holds (i : Interval) (n d : Nat) : Bool :=
  if i.closed then i.low * d ≤ n * i.den && n * i.den ≤ i.high * d
  else i.low * d < n * i.den && n * i.den < i.high * d

/-- The least `k` with `num / den < 10 ^ k`. -/
def pointOf (num den : Nat) : Int :=
  if den ≤ num then ((Nat.toDigits 10 (num / den)).length : Int)
  else
    let guess := (Nat.toDigits 10 (den / num)).length - 1
    if num * Nat.pow 10 guess < den then -(guess : Int) else 1 - (guess : Int)

/-- A multiple of `10 ^ e` as numerator and denominator. -/
def gridPoint (n : Nat) (e : Int) : Nat × Nat :=
  if 0 ≤ e then (n * Nat.pow 10 e.toNat, 1) else (n, Nat.pow 10 (-e).toNat)

/-- The grid point next to the double that rounds to it, if one does; of two the nearer, and of
two equally near the even one. -/
def onGrid (i : Interval) (e : Int) : Option Nat :=
  let (n, d) :=
    if 0 ≤ e then (i.value, i.den * Nat.pow 10 e.toNat)
    else (i.value * Nat.pow 10 (-e).toNat, i.den)
  let down := n / d
  let fits (k : Nat) : Bool := let (a, b) := gridPoint k e; i.holds a b
  let nearUp := d < 2 * (n % d) || (d == 2 * (n % d) && down % 2 == 1)
  match fits down, fits (down + 1) with
  | true, true => some (if nearUp then down + 1 else down)
  | true, false => some down
  | false, true => some (down + 1)
  | false, false => none

/-- Searches grids of `count`, `count + 1`, … digits. -/
def search (i : Interval) (point : Int) : (fuel count : Nat) → Option (Nat × Int)
  | 0, _ => none
  | fuel + 1, count =>
    match onGrid i (point - count) with
    | some n => some (n, point - count)
    | none => search i point fuel (count + 1)

def dropTrailingZeros (cs : List Char) : List Char :=
  (cs.reverse.dropWhile (· == '0')).reverse

/-- The shortest digits of a nonzero double; seventeen always suffice. -/
def shortest (x : Binary64) : Digits :=
  let i := Interval.of x
  let point := pointOf i.value i.den
  match search i point 17 1 with
  | some (n, e) =>
    let ds := Nat.toDigits 10 n
    ⟨dropTrailingZeros ds, (ds.length : Int) + e⟩
  | none => ⟨[], 0⟩

end TxGraph.Decimal
