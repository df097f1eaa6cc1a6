/-!
# Digits

The digits of a base up to sixteen, letters standing for ten to fifteen in either case. All of them
are ASCII.
-/

namespace QuantumRelay.Digit

def isDecimal (c : Char) : Bool := '0' ≤ c && c ≤ '9'

def value? (c : Char) : Option Nat :=
  if isDecimal c then some (c.toNat - 48)
  else if 'a' ≤ c && c ≤ 'f' then some (c.toNat - 87)
  else if 'A' ≤ c && c ≤ 'F' then some (c.toNat - 55)
  else none

/-- The number that digits of a base spell, the most significant first. -/
def number? (base : Nat) (cs : List Char) : Option Nat :=
  if cs.isEmpty then none
  else cs.foldlM (fun n c => ((value? c).filter (· < base)).map fun d => base * n + d) 0

end QuantumRelay.Digit
