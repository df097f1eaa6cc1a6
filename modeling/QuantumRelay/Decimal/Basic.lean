/-!
# Decimals and doubles

A `Decimal` is `digits * 10 ^ exponent`. A finite double is read exactly as `m * 2 ^ q` by
`Binary.ofFloat`, and `Decimal.toFloat` is the double nearest to a decimal. Everything between the
two is arithmetic on natural numbers: `roundDiv` rounds a quotient to the nearest integer, a half
going where `Tie` says. That texts are read with `Decimal.toFloat`, correctly rounded, is an assumption
about their readers.
-/

namespace QuantumRelay

structure Decimal where
  digits : Nat
  exponent : Int
deriving DecidableEq, Repr

/-- The number `mantissa * 2 ^ exponent`, as a double stores its magnitude. -/
structure Binary where
  mantissa : Nat
  exponent : Int
  /-- Whether the double just below is only half as far away as the one just above. -/
  narrowBelow : Bool
deriving DecidableEq, Repr

/-- Where a half goes when a quotient is rounded. -/
inductive Tie where
  | toEven
  | away
deriving DecidableEq, Repr

def twoTo (n : Nat) : Nat := Nat.pow 2 n

def tenTo (n : Nat) : Nat := Nat.pow 10 n

/-- The integer nearest to `num / den`, a half going as `tie` says. -/
def roundDiv (num den : Nat) (tie : Tie) : Nat :=
  let q := num / den
  let r := num % den
  if 2 * r < den then q
  else if den < 2 * r then q + 1
  else match tie with
    | .away => q + 1
    | .toEven => if q % 2 = 0 then q else q + 1

namespace Binary

/-- What the fraction of a double stays below: `2 ^ 52`. -/
def fractionLimit : Nat := 4503599627370496

/-- The magnitude of a finite double. -/
def ofFloat (x : Float) : Binary :=
  let bits : Nat := x.toBits.toNat
  let field : Nat := bits / fractionLimit % 2048
  let fraction : Nat := bits % fractionLimit
  if field = 0 then ⟨fraction, -1074, false⟩
  else ⟨fraction + fractionLimit, (field : Int) - 1075, fraction = 0 && 1 < field⟩

def isNegative (x : Float) : Bool := 2 * x.toBits.toNat ≥ UInt64.size

/-- The integer nearest to `b * scale`. -/
def roundScaled (b : Binary) (scale : Nat) (tie : Tie) : Nat :=
  if 0 ≤ b.exponent then b.mantissa * scale * twoTo b.exponent.toNat
  else roundDiv (b.mantissa * scale) (twoTo (-b.exponent).toNat) tie

end Binary

namespace Decimal

def digitChars (n : Nat) : List Char := Nat.toDigits 10 n

def digitValue (c : Char) : Nat := c.toNat - 48

def ofDigits (cs : List Char) : Nat := cs.foldl (fun n c => 10 * n + digitValue c) 0

/-- The double nearest to a decimal: infinite when it is past the largest double, zero when it is
far below the smallest. -/
def toFloat (d : Decimal) : Float :=
  let top := (digitChars d.digits).length + d.exponent
  if d.digits = 0 || top < -400 then 0
  else if 400 < top then Float.ofBits 0x7ff0000000000000
  else Float.ofScientific d.digits (d.exponent < 0) d.exponent.natAbs

def trim (fuel : Nat) (d : Decimal) : Decimal :=
  match fuel with
  | 0 => d
  | fuel + 1 =>
    if d.digits ≠ 0 && d.digits % 10 = 0 then trim fuel ⟨d.digits / 10, d.exponent + 1⟩ else d

/-- A magnitude with a fixed number of decimal places, a half going to the even neighbour. -/
def fixed (places : Nat) (b : Binary) : List Char :=
  let n := b.roundScaled (tenTo places) .toEven
  let whole := digitChars (n / tenTo places)
  if places = 0 then whole
  else
    let part := digitChars (n % tenTo places)
    whole ++ '.' :: List.replicate (places - part.length) '0' ++ part

end Decimal

end QuantumRelay
