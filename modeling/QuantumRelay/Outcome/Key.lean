import QuantumRelay.Circuit.Register
import QuantumRelay.Digit

/-!
# Outcome keys

The classical bits of a shot are a list, bit zero first. A unit reports them as a packed key: `0x`
and hexadecimal digits (`packHex`), or binary digits, bit zero last. `unpack` reads both. People see
them grouped by register, the last register first and in each the highest bit first (`grouped`).
-/

namespace QuantumRelay

/-- Why a packed key says nothing about bits. -/
inductive KeyFault where
  | emptyHex
  | notHex
  | notBinary
  | tooWide (width : Nat)
deriving DecidableEq, Repr

def KeyFault.message : KeyFault → String
  | .emptyHex => "empty hex value"
  | .notHex => "not a hex digit"
  | .notBinary => "not a binary digit"
  | .tooWide width => s!"does not fit in {width} classical bits"

namespace OutcomeKey

def binaryValue? (c : Char) : Option Bool :=
  if c = '0' then some false else if c = '1' then some true else none

/-- The four bits of a hexadecimal digit, the lowest first. -/
def nibble (n : Nat) : List Bool := (List.range 4).map n.testBit

/-- The hexadecimal digits of a key that has them. -/
def hexDigits? : List Char → Option (List Char)
  | '0' :: 'x' :: ds => some ds
  | '0' :: 'X' :: ds => some ds
  | _ => none

/-- The bits that a key spells, however many. -/
def spelled (key : List Char) : Except KeyFault (List Bool) :=
  match hexDigits? key with
  | some [] => .error .emptyHex
  | some ds =>
    match ds.reverse.mapM Digit.value? with
    | some ns => .ok (ns.flatMap nibble)
    | none => .error .notHex
  | none =>
    match (key.reverse.filter (· ≠ ' ')).mapM binaryValue? with
    | some bits => .ok bits
    | none => .error .notBinary

def unpack (key : String) (width : Nat) : Except KeyFault (List Bool) := do
  let bits ← spelled key.toList
  if (bits.drop width).any id then .error (.tooWide width)
  else .ok (bits.take width ++ List.replicate (width - bits.length) false)

/-- The number that bits spell, the lowest first. -/
def value : List Bool → Nat
  | [] => 0
  | b :: rest => (if b then 1 else 0) + 2 * value rest

/-- The key of bits: `0x` and the shortest hexadecimal digits of their number. -/
def packHex (bits : List Bool) : String :=
  String.ofList ('0' :: 'x' :: Nat.toDigits 16 (value bits))

/-- A bit as a digit; a bit that is not there is zero. -/
def digit (bits : List Bool) (i : Nat) : Char := if bits[i]?.getD false then '1' else '0'

def joined : List (List Char) → List Char
  | [] => []
  | [g] => g
  | g :: rest => g ++ ' ' :: joined rest

/-- The bits of a register, the highest first. -/
def group (bits : List Bool) (r : Register) : List Char :=
  r.indices.reverse.map fun i => digit bits i.toNat

/-- Bits as people see them. -/
def grouped (bits : List Bool) (registers : List Register) : String :=
  String.ofList <|
    if registers.isEmpty then (List.range bits.length).reverse.map (digit bits)
    else joined (registers.reverse.map (group bits))

def parts : List Char → List (List Char)
  | [] => [[]]
  | c :: rest =>
    if c = ' ' then [] :: parts rest
    else
      match parts rest with
      | [] => [[c]]
      | g :: more => (c :: g) :: more

end OutcomeKey

end QuantumRelay
