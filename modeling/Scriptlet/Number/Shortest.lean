import Scriptlet.Number.Binary

/-!
# Shortest decimals

`Number.shortest` finds the decimal with the fewest digits that reads back as a given number, and
among those the nearest. A number `m * 2 ^ q` owns the interval of reals that round to it; its ends
belong to it exactly if `m` is even. For one digit, two digits and so on, the two neighbours of the
value on that decimal grid are tried; the first grid with a neighbour inside the interval wins. Of
two neighbours inside, the nearer is taken, and the upper one if they are equally near.
-/

namespace Scriptlet.Number

/-- A positive decimal `digits * 10 ^ exponent`. -/
structure Decimal where
  digits : Nat
  exponent : Int
deriving DecidableEq, Repr

/-- The reals that round to one number, over a common denominator: from `low / den` to
`high / den`, around `value / den`, with the ends included if `closed`. -/
structure Interval where
  low : Nat
  value : Nat
  high : Nat
  den : Nat
  closed : Bool
deriving Repr

/-- The interval of the number `m * 2 ^ q`. Counted in quarters of the lowest bit the neighbours'
midpoints lie two away; below a power of two the numbers lie twice as close. -/
def interval (m : Nat) (q : Int) : Interval :=
  let below := if m = Nat.pow 2 52 ∧ minExponent < q then 1 else 2
  let closed := m % 2 = 0
  match q - 2 with
  | .ofNat n =>
    let unit := Nat.pow 2 n
    ⟨(4 * m - below) * unit, 4 * m * unit, (4 * m + 2) * unit, 1, closed⟩
  | .negSucc n => ⟨4 * m - below, 4 * m, 4 * m + 2, Nat.pow 2 (n + 1), closed⟩

/-- Whether the end of an interval at `a` still admits `b`. -/
def admits (closed : Bool) (a b : Nat) : Bool := if closed then a ≤ b else a < b

/-- The interval in units of `10 ^ g`. -/
def Interval.scale (i : Interval) : Int → Interval
  | .ofNat n => { i with den := i.den * Nat.pow 10 n }
  | .negSucc n =>
    let f := Nat.pow 10 (n + 1)
    { i with low := i.low * f, value := i.value * f, high := i.high * f }

/-- The neighbour of the value on the grid of whole numbers that the interval admits. -/
def Interval.neighbour? (i : Interval) : Option Nat :=
  let lower := i.value / i.den
  let upper := lower + 1
  let down := admits i.closed i.low (lower * i.den)
  let up := admits i.closed (upper * i.den) i.high
  match down, up with
  | true, true => if i.den ≤ 2 * (i.value % i.den) then some upper else some lower
  | true, false => some lower
  | false, true => some upper
  | false, false => none

/-- The number of decimal digits of a natural number, none for zero. The first argument bounds the
recursion. -/
def decimalLength : Nat → Nat → Nat
  | 0, _ => 0
  | _, 0 => 0
  | fuel + 1, n => decimalLength fuel (n / 10) + 1

/-- How often `num` has to grow tenfold to reach `den`. The first argument bounds the recursion. -/
def tenfoldsTo : Nat → Nat → Nat → Nat
  | 0, _, _ => 0
  | fuel + 1, num, den => if den ≤ num then 0 else tenfoldsTo fuel (num * 10) den + 1

/-- The `p` with `10 ^ (p - 1) ≤ value < 10 ^ p`. -/
def Interval.magnitude (i : Interval) : Int :=
  if i.den ≤ i.value then decimalLength 400 (i.value / i.den)
  else 1 - tenfoldsTo 400 i.value i.den

/-- Try the grids of `n` significant digits, `n + 1` and so on, `tries` of them. An upper neighbour
may be the power `10 ^ p` itself, which has one digit. -/
def Interval.search (i : Interval) (p : Int) : Nat → Nat → Decimal
  | 0, _ => ⟨i.value / i.den, 0⟩
  | tries + 1, n =>
    let g := p - n
    match (i.scale g).neighbour? with
    | some digits => if digits = Nat.pow 10 n then ⟨1, p⟩ else ⟨digits, g⟩
    | none => i.search p tries (n + 1)

/-- The shortest decimal that reads back as `m * 2 ^ q`, for a positive `m`. Seventeen digits are
always enough. -/
def shortest (m : Nat) (q : Int) : Decimal :=
  let i := interval m q
  i.search i.magnitude 17 1

end Scriptlet.Number
