import QuantumRelay.Statevector.Index
import Mathlib.Data.Nat.Bitwise
import Mathlib.Data.Set.Basic

/-!
# Bits of basis indices

`bitsAt` reads the number off an index that its bits at several qubits spell, and `replaceBits` puts
another number there; what they and `spread` do is told bit by bit. Two indices that agree at some
qubits (`SameOn`) or everywhere else (`SameOff`) go on doing so when bits at these qubits are changed
in the same way: `Twins` is the relation that all of these changes keep.
-/

namespace QuantumRelay.BasisIndex

variable {B : Set Nat} {i i' j j' k q width : Nat} {qubits : List Nat}

theorem withBit_of_eq {b : Bool} (h : i.testBit q = b) : withBit i q b = i := if_pos h

theorem withBit_of_ne {b : Bool} (h : i.testBit q ≠ b) : withBit i q b = flip i q := if_neg h

theorem flip_comm (i p q : Nat) : flip (flip i p) q = flip (flip i q) p := Nat.xor_right_comm ..

@[simp] theorem withBit_withBit (i q : Nat) (b c : Bool) :
    withBit (withBit i q b) q c = withBit i q c := by
  apply Nat.eq_of_testBit_eq
  intro p
  by_cases h : q = p
  · simp [testBit_withBit, h]
  · simp [testBit_withBit, h]

section two

variable {left right : Nat}

theorem withBit_flip_flip (hone : i.testBit left = true) (hzero : i.testBit right = false) :
    withBit (withBit (flip (flip i left) right) left true) right false = i := by
  have hne : left ≠ right := fun heq => by simp [heq, hzero] at hone
  have hleft : (flip (flip i left) right).testBit left ≠ true := by
    simp [testBit_flip, hne.symm, hone]
  have hback : flip (flip (flip i left) right) left = flip i right := by
    rw [flip_comm (flip i left), flip_flip i left]
  have hright : (flip i right).testBit right ≠ false := by simp [testBit_flip, hzero]
  rw [withBit_of_ne hleft, hback, withBit_of_ne hright, flip_flip i right]

theorem flip_flip_testBit_left (hne : left ≠ right) (i : Nat) :
    (flip (flip i left) right).testBit left = !i.testBit left := by
  simp [testBit_flip, hne.symm]

theorem flip_flip_testBit_right (hne : left ≠ right) (i : Nat) :
    (flip (flip i left) right).testBit right = !i.testBit right := by
  simp [testBit_flip, hne]

theorem flip_flip_twice (i left right : Nat) :
    flip (flip (flip (flip i left) right) left) right = i := by
  rw [flip_comm (flip i left), flip_flip i left, flip_flip i right]

def exchange (i left right : Nat) : Nat :=
  withBit (withBit i left (i.testBit right)) right (i.testBit left)

theorem testBit_exchange (i left right q : Nat) : (exchange i left right).testBit q =
    if right = q then i.testBit left else if left = q then i.testBit right else i.testBit q := by
  rw [exchange, testBit_withBit, testBit_withBit]

@[simp] theorem exchange_exchange (i left right : Nat) :
    exchange (exchange i left right) left right = i := by
  apply Nat.eq_of_testBit_eq
  intro q
  simp only [testBit_exchange]
  by_cases hright : right = q
  · by_cases hleft : left = q
    · simp [hleft, hright]
    · simp [hright, Ne.symm hleft]
  · by_cases hleft : left = q <;> simp [hleft, hright]

theorem exchange_of_eq (h : i.testBit left = i.testBit right) : exchange i left right = i := by
  rw [exchange, withBit_of_eq h, withBit_of_eq h.symm]

theorem exchange_of_ne (h : i.testBit left ≠ i.testBit right) :
    exchange i left right = flip (flip i left) right := by
  have hne : left ≠ right := fun heq => h (heq ▸ rfl)
  have hother : (flip i left).testBit right ≠ i.testBit left := by
    simpa [testBit_flip, hne] using Ne.symm h
  rw [exchange, withBit_of_ne h, withBit_of_ne hother]

end two

/-! ### Several bits at once -/

def SameOn (B : Set Nat) (i j : Nat) : Prop := ∀ q ∈ B, i.testBit q = j.testBit q

def SameOff (B : Set Nat) (i j : Nat) : Prop := ∀ q ∉ B, i.testBit q = j.testBit q

/-- The index whose bits at `qubits` are all zero and that is `i` elsewhere. -/
def clearBits (i : Nat) (qubits : List Nat) : Nat :=
  qubits.foldl (fun i q => withBit i q false) i

/-- The bits of an index at `qubits`, the first one least significant. -/
def bitsAt (i : Nat) : List Nat → Nat
  | [] => 0
  | q :: rest => (i.testBit q).toNat + 2 * bitsAt i rest

def replaceBits (i k : Nat) (qubits : List Nat) : Nat := clearBits i qubits ||| spread k qubits

theorem testBit_clearBits (i : Nat) (qubits : List Nat) (q : Nat) :
    (clearBits i qubits).testBit q = (i.testBit q && !qubits.contains q) := by
  induction qubits generalizing i with
  | nil => simp [clearBits]
  | cons p rest ih =>
    have hfold : clearBits i (p :: rest) = clearBits (withBit i p false) rest := rfl
    rw [hfold, ih, testBit_withBit]
    by_cases h : p = q
    · simp [h]
    · simp [h, Ne.symm h]

theorem testBit_spread_of_not_mem (k : Nat) (h : q ∉ qubits) : (spread k qubits).testBit q = false := by
  induction qubits generalizing k with
  | nil => simp [spread]
  | cons p rest ih =>
    rw [List.mem_cons, not_or] at h
    rw [spread, Nat.testBit_or, ih _ h.2, Bool.or_false]
    split
    · simp [Nat.one_shiftLeft, Nat.testBit_two_pow_of_ne (Ne.symm h.1)]
    · simp

theorem testBit_replaceBits (i k : Nat) (qubits : List Nat) (q : Nat) :
    (replaceBits i k qubits).testBit q =
      if q ∈ qubits then (spread k qubits).testBit q else i.testBit q := by
  rw [replaceBits, Nat.testBit_or, testBit_clearBits]
  by_cases h : q ∈ qubits
  · simp [h]
  · simp [h, testBit_spread_of_not_mem k h]

theorem bitsAt_congr (h : ∀ q ∈ qubits, i.testBit q = j.testBit q) :
    bitsAt i qubits = bitsAt j qubits := by
  induction qubits with
  | nil => rfl
  | cons q rest ih =>
    rw [List.forall_mem_cons] at h
    rw [bitsAt, bitsAt, h.1, ih h.2]

theorem all_testBit_congr (h : ∀ q ∈ qubits, i.testBit q = j.testBit q) :
    qubits.all i.testBit = qubits.all j.testBit := by
  rw [Bool.eq_iff_iff, List.all_eq_true, List.all_eq_true]
  exact forall₂_congr fun q hq => by rw [h q hq]

theorem all_testBit_exchange {left right : Nat} (hleft : left ∉ qubits) (hright : right ∉ qubits)
    (i : Nat) : qubits.all (exchange i left right).testBit = qubits.all i.testBit := by
  refine all_testBit_congr fun q hq => ?_
  rw [testBit_exchange, if_neg fun heq : right = q => hright (heq ▸ hq),
    if_neg fun heq : left = q => hleft (heq ▸ hq)]

theorem bitsAt_lt (i : Nat) (qubits : List Nat) : bitsAt i qubits < count qubits.length := by
  induction qubits with
  | nil => exact Nat.one_pos
  | cons q rest ih =>
    have hbit := Bool.toNat_le (i.testBit q)
    have hcount : count (q :: rest).length = 2 * count rest.length := Nat.pow_succ'
    rw [bitsAt, hcount]
    omega

theorem testBit_bitsAt (i : Nat) {p : Nat} (h : qubits[p]? = some q) :
    (bitsAt i qubits).testBit p = i.testBit q := by
  induction qubits generalizing p with
  | nil => cases h
  | cons r rest ih =>
    cases p with
    | zero =>
      obtain rfl := Option.some.inj h
      cases hbit : i.testBit r <;> simp [bitsAt, hbit, Nat.testBit_zero]
    | succ p =>
      have hhalf : bitsAt i (r :: rest) / 2 = bitsAt i rest := by
        have := Bool.toNat_le (i.testBit r)
        rw [bitsAt]
        omega
      rw [Nat.testBit_succ, hhalf, ih h]

/-- A qubit of a list without repetitions gets the bit of its place in the list. -/
theorem testBit_spread (k : Nat) (hnodup : qubits.Nodup) {p : Nat} (h : qubits[p]? = some q) :
    (spread k qubits).testBit q = k.testBit p := by
  induction qubits generalizing k p with
  | nil => cases h
  | cons r rest ih =>
    obtain ⟨hr, hrest⟩ := List.nodup_cons.1 hnodup
    cases p with
    | zero =>
      obtain rfl := Option.some.inj h
      rw [spread, Nat.testBit_or, testBit_spread_of_not_mem _ hr, Bool.or_false]
      cases k.testBit 0 <;> simp [Nat.one_shiftLeft]
    | succ p =>
      have hne : r ≠ q := fun heq => hr (heq ▸ List.mem_of_getElem? h)
      rw [spread, Nat.testBit_or, ih _ hrest h, Nat.testBit_succ]
      cases k.testBit 0 <;> simp [Nat.one_shiftLeft, Nat.testBit_two_pow_of_ne hne]

theorem bitsAt_replaceBits (i : Nat) (hnodup : qubits.Nodup) (hk : k < count qubits.length) :
    bitsAt (replaceBits i k qubits) qubits = k := by
  apply Nat.eq_of_testBit_eq
  intro p
  by_cases hp : p < qubits.length
  · have hget : qubits[p]? = some qubits[p] := List.getElem?_eq_getElem hp
    rw [testBit_bitsAt _ hget, testBit_replaceBits, if_pos (List.getElem_mem hp),
      testBit_spread k hnodup hget]
  · have hle : count qubits.length ≤ 2 ^ p := Nat.pow_le_pow_right (by decide) (Nat.le_of_not_lt hp)
    rw [Nat.testBit_lt_two_pow ((bitsAt_lt _ _).trans_le hle),
      Nat.testBit_lt_two_pow (hk.trans_le hle)]

theorem testBit_spread_bitsAt (i : Nat) (h : q ∈ qubits) :
    (spread (bitsAt i qubits) qubits).testBit q = i.testBit q := by
  induction qubits with
  | nil => cases h
  | cons r rest ih =>
    have hhalf : bitsAt i (r :: rest) / 2 = bitsAt i rest := by
      have := Bool.toNat_le (i.testBit r)
      rw [bitsAt]
      omega
    have hzero : (bitsAt i (r :: rest)).testBit 0 = i.testBit r := testBit_bitsAt i rfl
    rw [spread, hhalf, hzero, Nat.testBit_or]
    by_cases hrest : q ∈ rest
    · rw [ih hrest]
      by_cases hq : r = q
      · subst hq; cases i.testBit r <;> simp
      · cases i.testBit r <;> simp [Nat.one_shiftLeft, Nat.testBit_two_pow_of_ne hq]
    · obtain rfl : q = r := (List.mem_cons.1 h).resolve_right hrest
      rw [testBit_spread_of_not_mem _ hrest]
      cases i.testBit q <;> simp [Nat.one_shiftLeft]

theorem SameOff.replaceBits_bitsAt (h : SameOff {q | q ∈ qubits} i j) :
    replaceBits i (bitsAt j qubits) qubits = j := by
  apply Nat.eq_of_testBit_eq
  intro q
  rw [testBit_replaceBits]
  split
  · next hq => exact testBit_spread_bitsAt j hq
  · next hq => exact h q hq

@[simp] theorem replaceBits_bitsAt (i : Nat) (qubits : List Nat) :
    replaceBits i (bitsAt i qubits) qubits = i :=
  SameOff.replaceBits_bitsAt fun _ _ => rfl

/-- If a number puts no ones where an index has zeros, then it is not above the number that the index
has there. -/
theorem le_bitsAt (h : ∀ q, (spread k qubits).testBit q = true → i.testBit q = true)
    (hk : k < count qubits.length) : k ≤ bitsAt i qubits := by
  induction qubits generalizing k with
  | nil => exact Nat.le_of_lt_succ hk
  | cons r rest ih =>
    have hcount : count (r :: rest).length = 2 * count rest.length := Nat.pow_succ'
    have hrest : k / 2 ≤ bitsAt i rest := by
      refine ih (fun q hq => h q ?_) (by omega)
      rw [spread, Nat.testBit_or, hq, Bool.or_true]
    have hlow : k % 2 ≤ (i.testBit r).toNat := by
      by_cases hbit : k.testBit 0 = true
      · rw [h r (by rw [spread, if_pos hbit]; simp [Nat.testBit_or, Nat.one_shiftLeft])]
        exact Nat.le_of_lt_succ (Nat.mod_lt k (by decide))
      · rw [Nat.testBit_zero, decide_eq_true_eq] at hbit
        omega
    rw [bitsAt]
    omega

/-! ### Indices of a state -/

/-- The indices of a state have no bits at qubits that it lacks. -/
theorem lt_count_iff : i < count width ↔ ∀ q, width ≤ q → i.testBit q = false := by
  constructor
  · intro h q hq
    exact Nat.testBit_lt_two_pow (h.trans_le (Nat.pow_le_pow_right (by decide) hq))
  · exact Nat.lt_pow_two_of_testBit i

theorem withBit_lt_count (hi : i < count width) (hq : q < width) (b : Bool) :
    withBit i q b < count width := by
  rw [lt_count_iff] at hi ⊢
  intro p hp
  rw [testBit_withBit, if_neg (by omega), hi p hp]

theorem flip_lt_count (hi : i < count width) (hq : q < width) : flip i q < count width := by
  rw [lt_count_iff] at hi ⊢
  intro p hp
  rw [testBit_flip, hi p hp, decide_eq_false (by omega), Bool.xor_false]

theorem exchange_lt_count {left right : Nat} (hi : i < count width) (hleft : left < width)
    (hright : right < width) : exchange i left right < count width :=
  withBit_lt_count (withBit_lt_count hi hleft _) hright _

theorem withBit_false_lt_count (hi : i < count width) (q : Nat) : withBit i q false < count width := by
  rw [lt_count_iff] at hi ⊢
  intro p hp
  rw [testBit_withBit, hi p hp, ite_self]

theorem clearBits_lt_count (hi : i < count width) (qubits : List Nat) :
    clearBits i qubits < count width := by
  rw [lt_count_iff] at hi ⊢
  intro p hp
  rw [testBit_clearBits, hi p hp, Bool.false_and]

/-! ### Indices that agree -/

theorem SameOff.lt_count (h : SameOff B i j) (hB : ∀ q ∈ B, q < width) (hi : i < count width) :
    j < count width := by
  rw [lt_count_iff] at hi ⊢
  intro q hq
  rw [← h q fun hmem => absurd (hB q hmem) (Nat.not_lt.2 hq), hi q hq]

theorem sameOff_exchange {left right : Nat} (hleft : left ∈ B) (hright : right ∈ B) (i : Nat) :
    SameOff B i (exchange i left right) := by
  intro q hq
  rw [testBit_exchange, if_neg fun heq : right = q => hq (heq ▸ hright),
    if_neg fun heq : left = q => hq (heq ▸ hleft)]

/-- From each of two indices, one that differs on `B` only, with the same bits there. -/
structure Twins (B : Set Nat) (i i' j j' : Nat) : Prop where
  left : SameOff B i j
  right : SameOff B i' j'
  on : SameOn B j j'

namespace Twins

theorem refl (h : SameOn B i i') : Twins B i i' i i' := ⟨fun _ _ => rfl, fun _ _ => rfl, h⟩

theorem withBit (h : Twins B i i' j j') (hq : q ∈ B) (b : Bool) :
    Twins B i i' (withBit j q b) (withBit j' q b) where
  left p hp := by
    rw [h.left p hp, testBit_withBit, if_neg fun heq : q = p => hp (heq ▸ hq)]
  right p hp := by
    rw [h.right p hp, testBit_withBit, if_neg fun heq : q = p => hp (heq ▸ hq)]
  on p hp := by rw [testBit_withBit, testBit_withBit, h.on p hp]

theorem flip (h : Twins B i i' j j') (hq : q ∈ B) : Twins B i i' (flip j q) (flip j' q) where
  left p hp := by
    have hne : q ≠ p := fun heq => hp (heq ▸ hq)
    simp [h.left p hp, testBit_flip, hne]
  right p hp := by
    have hne : q ≠ p := fun heq => hp (heq ▸ hq)
    simp [h.right p hp, testBit_flip, hne]
  on p hp := by rw [testBit_flip, testBit_flip, h.on p hp]

theorem replaceBits (h : Twins B i i' j j') (hqubits : ∀ q ∈ qubits, q ∈ B) (k : Nat) :
    Twins B i i' (replaceBits j k qubits) (replaceBits j' k qubits) where
  left p hp := by rw [h.left p hp, testBit_replaceBits, if_neg fun hmem => hp (hqubits p hmem)]
  right p hp := by rw [h.right p hp, testBit_replaceBits, if_neg fun hmem => hp (hqubits p hmem)]
  on p hp := by rw [testBit_replaceBits, testBit_replaceBits, h.on p hp]

end Twins

end QuantumRelay.BasisIndex
