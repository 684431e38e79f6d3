/-!
# Numbers as exact fractions

The numbers of the language are 64-bit binary floating-point numbers. This module opens one into
its sign, significand and exponent, and goes back from an exact fraction to the nearest number.
Both directions are plain arithmetic on natural numbers, so nothing here depends on how a machine
rounds.

* `Number.view` : the exact value of a number;
* `Number.nearest` : the number nearest to a fraction, a tie going to the even significand;
* `Number.whole` : the integer part, held within 64 bits.
-/

namespace Scriptlet.Number

/-- What a number stands for: `finite negative m q` is `m * 2 ^ q`, negated if `negative`. -/
inductive View where
  | nan
  | infinite (negative : Bool)
  | finite (negative : Bool) (significand : Nat) (exponent : Int)
deriving DecidableEq, Repr

/-- The weight of the lowest bit of the smallest numbers. -/
def minExponent : Int := -1074

/-- The exact value of a number, read off its bits. -/
def view (x : Float) : View :=
  let bits := x.toBits.toNat
  let negative := decide (Nat.pow 2 63 ≤ bits)
  let field : Nat := bits / Nat.pow 2 52 % Nat.pow 2 11
  let fraction := bits % Nat.pow 2 52
  if field = 2047 then
    if fraction = 0 then .infinite negative else .nan
  else if field = 0 then .finite negative fraction minExponent
  else .finite negative (Nat.pow 2 52 + fraction) (field + minExponent - 1)

/-- The bits of positive infinity. -/
def infinityBits : Nat := 2047 * Nat.pow 2 52

/-- The number with the given sign and magnitude bits; too large a magnitude is infinity. -/
def ofMagnitude (negative : Bool) (magnitude : Nat) : Float :=
  Float.ofBits (UInt64.ofNat ((if negative then Nat.pow 2 63 else 0) + min magnitude infinityBits))

/-- `num / den` rounded to a natural number, a tie going to the even one. -/
def roundDiv (num den : Nat) : Nat :=
  let quotient := num / den
  let twice := 2 * (num % den)
  if twice < den then quotient
  else if den < twice then quotient + 1
  else if quotient % 2 = 0 then quotient else quotient + 1

/-- Whether `num / den` is at least `2 ^ k`. -/
def reaches (num den : Nat) (k : Int) : Bool :=
  match k with
  | .ofNat n => den * Nat.pow 2 n ≤ num
  | .negSucc n => den ≤ num * Nat.pow 2 (n + 1)

/-- The greatest `k` with `2 ^ k ≤ num / den`, for positive `num` and `den`. -/
def floorLog2 (num den : Nat) : Int :=
  let guess : Int := (num.log2 : Int) - den.log2
  if reaches num den guess then guess else guess - 1

/-- The bits, without sign, of the number nearest to `num / den`. The significand gets 53 bits, or
fewer where the lowest exponent is reached. With the significand `m` and the lowest bit's weight
`2 ^ e` the bits are `(e - minExponent) * 2 ^ 52 + m` for small and ordinary numbers alike, and a
significand that rounds up to `2 ^ 53` carries into the exponent by itself. -/
def nearestMagnitude (num den : Nat) : Nat :=
  if num = 0 ∨ den = 0 then 0
  else
    let e := max (floorLog2 num den - 52) minExponent
    let m := match e with
      | .ofNat n => roundDiv num (den * Nat.pow 2 n)
      | .negSucc n => roundDiv (num * Nat.pow 2 (n + 1)) den
    (e - minExponent).toNat * Nat.pow 2 52 + m

/-- The number nearest to `num / den`, negated if `negative`. -/
def nearest (negative : Bool) (num den : Nat) : Float :=
  ofMagnitude negative (nearestMagnitude num den)

/-- The number nearest to a natural number. -/
def ofNat (n : Nat) : Float := nearest false n 1

/-- The number nearest to an integer. -/
def ofInt (i : Int) : Float := nearest (decide (i < 0)) i.natAbs 1

/-- The magnitude of `m * 2 ^ q` without its fraction. -/
def truncate (m : Nat) : Int → Nat
  | .ofNat n => m * Nat.pow 2 n
  | .negSucc n => m / Nat.pow 2 (n + 1)

/-- The largest and smallest integers of 64 bits. -/
def maxWord : Int := 9223372036854775807

@[inherit_doc maxWord]
def minWord : Int := -9223372036854775808

/-- The nearest integer of 64 bits. -/
def clamp (i : Int) : Int := max minWord (min maxWord i)

/-- The integer part of a number: the fraction is dropped, a value outside 64 bits becomes the
nearest one inside, and the number that is not a number becomes zero. -/
def whole (x : Float) : Int :=
  match view x with
  | .nan => 0
  | .infinite negative => if negative then minWord else maxWord
  | .finite negative m q =>
    let size : Int := truncate m q
    clamp (if negative then -size else size)

/-- A number without its fraction, as a number again. Unlike `whole` it has no bounds, and it
keeps infinities, the sign of zero and the number that is not a number. -/
def dropFraction (x : Float) : Float :=
  match view x with
  | .finite negative m q => nearest negative (truncate m q) 1
  | _ => x

end Scriptlet.Number
