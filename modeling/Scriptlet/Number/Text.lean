import Scriptlet.Number.Shortest

/-!
# Number text

How a number is written and read. Written, it has the fewest digits that read back, always in
positional notation: no exponent, no trailing `.0`, a minus sign also for negative zero. Read, it
is an optional sign followed by digits with an optional point and an optional exponent, or by one
of the words `inf`, `infinity` and `nan` in any case. Of an exponent only as many digits count as it
takes to reach `exponentLimit`.
-/

namespace Scriptlet.Number

/-- A decimal in positional notation. -/
def Decimal.positional (d : Decimal) : String :=
  let digits := toString d.digits
  match d.exponent with
  | .ofNat n => digits ++ String.ofList (List.replicate n '0')
  | .negSucc n =>
    let places := n + 1
    let padded := List.replicate (places + 1 - digits.length) '0' ++ digits.toList
    let split := padded.length - places
    String.ofList (padded.take split ++ '.' :: padded.drop split)

/-- The written form of a number. -/
def text (x : Float) : String :=
  match view x with
  | .nan => "NaN"
  | .infinite negative => if negative then "-inf" else "inf"
  | .finite negative m q =>
    let sign := if negative then "-" else ""
    if m = 0 then sign ++ "0" else sign ++ (shortest m q).positional

/-- The value of a decimal digit. -/
def digitValue (c : Char) : Nat := c.toNat - '0'.toNat

/-- The scale at which a group of digits is full. -/
def groupScale : Nat := 1000000000000000

/-- The value of what was read so far, `value * scale + group`, followed by further digits. Digits
are gathered in the group, which joins the value only when it is full: so a long value is touched
once for a group and not for every digit. -/
def readDigits (value group scale : Nat) : List Char → Nat
  | [] => value * scale + group
  | c :: rest =>
    if scale < groupScale then readDigits value (10 * group + digitValue c) (10 * scale) rest
    else readDigits (value * scale + group) (digitValue c) 10 rest

/-- The value of a list of decimal digits. -/
def digitsValue (cs : List Char) : Nat := readDigits 0 0 1 cs

/-- Grouping does not change the value: every digit adds itself to ten times what precedes it. -/
theorem readDigits_eq_foldl (value group scale : Nat) (cs : List Char) :
    readDigits value group scale cs =
      cs.foldl (fun n c => 10 * n + digitValue c) (value * scale + group) := by
  induction cs generalizing value group scale with
  | nil => rfl
  | cons c rest ih =>
    have step : value * (10 * scale) + (10 * group + digitValue c) =
        10 * (value * scale + group) + digitValue c := by
      rw [Nat.mul_left_comm, Nat.mul_add, Nat.add_assoc]
    have join : (value * scale + group) * 10 + digitValue c =
        10 * (value * scale + group) + digitValue c := by
      rw [Nat.mul_comm]
    rw [readDigits, List.foldl_cons]
    split
    · rw [ih, step]
    · rw [ih, join]

theorem digitsValue_eq_foldl (cs : List Char) :
    digitsValue cs = cs.foldl (fun n c => 10 * n + digitValue c) 0 :=
  readDigits_eq_foldl 0 0 1 cs

/-- The number nearest to `digits * 10 ^ exponent`. The decimal logarithm of `digits` lies between
`30102` and `30103` hundred thousandths of the binary one, so a value surely beyond the largest
number, or surely below half the smallest, is settled without computing the power. -/
def ofDecimal (negative : Bool) (digits : Nat) (exponent : Int) : Float :=
  if digits = 0 then ofMagnitude negative 0
  else if 310 < (digits.log2 * 30102 / 100000 : Int) + exponent then
    ofMagnitude negative infinityBits
  else if ((digits.log2 + 1) * 30103 / 100000 : Int) + 1 + exponent < -330 then
    ofMagnitude negative 0
  else match exponent with
    | .ofNat n => nearest negative (digits * Nat.pow 10 n) 1
    | .negSucc n => nearest negative digits (Nat.pow 10 (n + 1))

/-- The leading decimal digits of a list of characters, and the rest. -/
def splitDigits (cs : List Char) : List Char × List Char := cs.span Char.isDigit

/-- Split off a leading sign: whether it is a minus, and the rest. -/
def splitSign : List Char → Bool × List Char
  | '-' :: rest => (true, rest)
  | '+' :: rest => (false, rest)
  | cs => (false, cs)

/-- The size from which on further digits of an exponent are not read. -/
def exponentLimit : Nat := 65536

/-- The size of an exponent after the digits `cs`, if it was `size` before them. A size that has
reached the limit stays as it is, whatever digits follow. -/
def exponentSize (size : Nat) : List Char → Nat
  | [] => size
  | c :: rest =>
    if size < exponentLimit then exponentSize (10 * size + digitValue c) rest else size

/-- The power of ten written by an exponent part, which may be missing. -/
def exponent? : List Char → Option Int
  | [] => some 0
  | c :: rest =>
    if c = 'e' ∨ c = 'E' then
      let (negative, digits) := splitSign rest
      if digits.isEmpty ∨ ¬ digits.all Char.isDigit then none
      else
        let size : Int := exponentSize 0 digits
        some (if negative then -size else size)
    else none

/-- The number written by digits with an optional point and exponent. At least one digit has to
stand before or after the point. -/
def unsigned? (negative : Bool) (cs : List Char) : Option Float :=
  let (before, rest) := splitDigits cs
  let (after, rest) := match rest with
    | '.' :: tail => splitDigits tail
    | _ => ([], rest)
  if before.isEmpty ∧ after.isEmpty then none
  else (exponent? rest).map fun e =>
    ofDecimal negative (digitsValue (before ++ after)) (e - after.length)

/-- The number that a text writes, if it writes one. -/
def read? (s : String) : Option Float :=
  let (negative, cs) := splitSign s.toList
  let word := String.ofList (cs.map Char.toLower)
  if word = "inf" ∨ word = "infinity" then some (ofMagnitude negative infinityBits)
  else if word = "nan" then some (Float.ofBits 0x7ff8000000000000)
  else unsigned? negative cs

end Scriptlet.Number
