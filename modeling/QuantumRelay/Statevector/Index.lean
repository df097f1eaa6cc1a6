/-!
# Basis indices

A basis state is numbered by its qubits: qubit `q` is bit `q` of the index. `withBit` sets one bit of an
index, and `spread` puts the bits of a row number to several qubits, least significant first.
-/

namespace QuantumRelay.BasisIndex

/-- The number of basis states of some qubits: two to the power of how many there are. -/
abbrev count (qubits : Nat) : Nat := Nat.pow 2 qubits

/-- The qubit that a number stands for. An index has 64 bits; past the last one, numbers start with
the first one again. -/
def qubitOfNumber (n : Nat) : Nat := n % 64

def flip (i q : Nat) : Nat := i ^^^ (1 <<< q)

def withBit (i q : Nat) (b : Bool) : Nat := if i.testBit q = b then i else flip i q

/-- The index that has the bits of `k` at `qubits`, the first one least significant, and zeros
elsewhere. -/
def spread (k : Nat) : List Nat → Nat
  | [] => 0
  | q :: rest => (if k.testBit 0 then 1 <<< q else 0) ||| spread (k / 2) rest

theorem testBit_flip (i q j : Nat) : (flip i q).testBit j = (i.testBit j ^^ decide (q = j)) := by
  by_cases h : q = j
  · subst h; simp [flip, Nat.testBit_xor, Nat.one_shiftLeft]
  · simp [flip, Nat.testBit_xor, Nat.one_shiftLeft, Nat.testBit_two_pow_of_ne h, h]

@[simp] theorem flip_flip (i q : Nat) : flip (flip i q) q = i := by
  rw [flip, flip, Nat.xor_assoc, Nat.xor_self, Nat.xor_zero]

theorem testBit_withBit (i q j : Nat) (b : Bool) :
    (withBit i q b).testBit j = if q = j then b else i.testBit j := by
  unfold withBit
  by_cases h : q = j
  · subst h
    by_cases hb : i.testBit q = b
    · simp [hb]
    · simp only [hb, if_false, testBit_flip, decide_true, Bool.xor_true, if_true]
      cases b <;> simp_all
  · by_cases hb : i.testBit q = b
    · simp [hb, h]
    · simp [hb, h, testBit_flip]

end QuantumRelay.BasisIndex
