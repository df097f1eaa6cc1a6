import QuantumRelay.Json.Record

/-!
# Counts

`Counts` says how often each outcome came out. Numbers of shots are 64-bit words. Where a sum of them is
no word, the program stops (`Overflow`): additions are checked, and nothing is rescued.
-/

namespace QuantumRelay

/-- The end of a program at a sum that is no 64-bit word. It is no error that a caller gets to see. -/
inductive Overflow where
  | overflow
deriving DecidableEq, Repr

/-- How often each outcome came out. -/
structure Counts where
  map : KeyMap UInt64 := .empty
deriving BEq, Inhabited

namespace Counts

def get (c : Counts) (outcome : String) : UInt64 := (c.map.find? outcome).getD 0

def add (m n : UInt64) : Except Overflow UInt64 :=
  if m.toNat + n.toNat < UInt64.size then .ok (m + n) else .error .overflow

/-- More of an outcome, where it is known that the sum is a word. -/
def plus (c : Counts) (outcome : String) (n : UInt64) : Counts :=
  ⟨c.map.upsert outcome fun old => old.getD 0 + n⟩

def insert (c : Counts) (outcome : String) (n : UInt64) : Except Overflow Counts :=
  (add (c.get outcome) n).map fun _ => c.plus outcome n

def insertAll (c : Counts) (l : List (String × UInt64)) : Except Overflow Counts :=
  l.foldlM (fun c e => c.insert e.1 e.2) c

def ofList (l : List (String × UInt64)) : Except Overflow Counts := insertAll {} l

def total (c : Counts) : Except Overflow UInt64 := c.map.values.foldlM add 0

/-- The share of an outcome, zero if there is no shot. -/
def probability (c : Counts) (outcome : String) : Except Overflow Float :=
  c.total.map fun total => if total = 0 then 0 else (c.get outcome).toFloat / total.toFloat

/-- The outcomes from the most to the least frequent, equally frequent ones in text order. -/
def sorted (c : Counts) : List (String × UInt64) := c.map.entries.mergeSort fun a b => b.2 ≤ a.2

/-- The most frequent outcome, the first in text order among equals. -/
def mostFrequent? (c : Counts) : Option (String × UInt64) := c.sorted.head?

def size (c : Counts) : Nat := c.map.size

def isEmpty (c : Counts) : Bool := c.map.isEmpty

def toJson (c : Counts) : Json := .ofKeyMap .ofWord64 c.map

end Counts

end QuantumRelay
