import QuantumRelay.Decimal.Basic

/-!
# The shortest decimal of a double

`Decimal.shortest x` has the fewest digits among the decimals that round to the finite, non-zero
double `x`, and of those it is the nearest to `x`. The decimals that round to `x` fill an interval
around it; for one, two, … seventeen digits the two neighbours of `x` on that decimal grid are
tested, and the first grid with a hit wins.
-/

namespace QuantumRelay.Decimal

/-- A magnitude and its rounding interval, measured on the grid of multiples of a power of ten:
the value is `value / unit` grid steps, and the interval runs from `low / unit` to `high / unit`. -/
structure Window where
  value : Nat
  low : Nat
  high : Nat
  unit : Nat
  /-- Whether the two ends round to the double as well. -/
  closed : Bool

/-- The window of a magnitude on the grid of multiples of `10 ^ p`. -/
def window (b : Binary) (p : Int) : Window :=
  let up := twoTo (b.exponent - 2).toNat * tenTo (-p).toNat
  { value := 4 * b.mantissa * up
    low := (4 * b.mantissa - if b.narrowBelow then 1 else 2) * up
    high := (4 * b.mantissa + 2) * up
    unit := twoTo (2 - b.exponent).toNat * tenTo p.toNat
    closed := b.mantissa % 2 = 0 }

/-- The grid point of a window that is nearest to its value, if one lies in the interval; of two
equally near the even one. -/
def Window.nearest? (w : Window) : Option Nat :=
  let below := w.value / w.unit
  let above := below + 1
  let hitsBelow := w.low < below * w.unit || (w.closed && w.low = below * w.unit)
  let hitsAbove := above * w.unit < w.high || (w.closed && above * w.unit = w.high)
  match hitsBelow, hitsAbove with
  | false, false => none
  | true, false => some below
  | false, true => some above
  | true, true =>
    let twice := 2 * w.value
    let middle := (2 * below + 1) * w.unit
    if twice < middle then some below
    else if middle < twice then some above
    else if below % 2 = 0 then some below else some above

def leadingExponent (b : Binary) : Int :=
  let num := b.mantissa * twoTo b.exponent.toNat
  let den := twoTo (-b.exponent).toNat
  if den ≤ num then (digitChars (num / den)).length - 1
  else -((digitChars (den / num)).length : Int)

/-- The shortest decimal that rounds to a non-zero magnitude. -/
def shortest (b : Binary) : Decimal :=
  let lead := leadingExponent b
  let hit := (List.range 17).findSome? fun (k : Nat) =>
    let p := lead - k
    ((window b p).nearest?).map fun c => trim 20 ⟨c, p⟩
  hit.getD ⟨b.mantissa, 0⟩

/-- How a decimal is written: positionally while the exponent of the leading digit is at least
`positionalFrom` and below `scientificFrom`, with an exponent otherwise. -/
structure Style where
  positionalFrom : Int
  scientificFrom : Int

/-- A decimal in a given style. Positional text always has a fraction digit, an exponent always has
a sign. -/
def written (style : Style) (d : Decimal) : List Char :=
  let ds := digitChars d.digits
  let lead := d.exponent + ds.length - 1
  if style.positionalFrom ≤ lead && lead < style.scientificFrom then
    if lead < 0 then '0' :: '.' :: List.replicate (-lead - 1).toNat '0' ++ ds
    else
      let whole := lead.toNat + 1
      if ds.length ≤ whole then ds ++ List.replicate (whole - ds.length) '0' ++ ['.', '0']
      else ds.take whole ++ '.' :: ds.drop whole
  else
    let tail := if ds.length ≤ 1 then [] else '.' :: ds.drop 1
    let sign := if lead < 0 then '-' else '+'
    ds.take 1 ++ tail ++ 'e' :: sign :: digitChars lead.natAbs

/-- A finite double in a given style, by its shortest digits. -/
def writtenFloat (style : Style) (x : Float) : List Char :=
  let b := Binary.ofFloat x
  let magnitude := if b.mantissa = 0 then ['0', '.', '0'] else written style (shortest b)
  if Binary.isNegative x then '-' :: magnitude else magnitude

end QuantumRelay.Decimal
