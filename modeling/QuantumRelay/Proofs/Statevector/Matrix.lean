import QuantumRelay.Proofs.Statevector.Exact
import QuantumRelay.Proofs.Statevector.Sweep

/-!
# Matrices act on the bits of their qubits

Over a commutative ring, the amplitude that a matrix leaves at an index is a row of the matrix times old
amplitudes: the row is the number that the bits of the index at the qubits spell, and the columns belong
to the indices with other bits there (`matrices_act`). The first qubit is the least significant bit of
both (`Replaces`).
-/

namespace QuantumRelay

open BasisIndex Finset

variable {A R : Type}

/-! ### Numbers at qubits -/

/-- An index `j` is `i` with the bits of `k` at `qubits`, the least significant one at the first. -/
structure BasisIndex.Replaces (qubits : List Nat) (i k j : Nat) : Prop where
  on : ∀ p q, qubits[p]? = some q → j.testBit q = k.testBit p
  off : ∀ q ∉ qubits, j.testBit q = i.testBit q

theorem BasisIndex.replaces_bitsAt (i : Nat) (qubits : List Nat) :
    Replaces qubits i (bitsAt i qubits) i where
  on _ _ h := (testBit_bitsAt i h).symm
  off _ _ := rfl

theorem BasisIndex.replaces_replaceBits {qubits : List Nat} (hnodup : qubits.Nodup) (i k : Nat) :
    Replaces qubits i k (replaceBits i k qubits) where
  on p q h := by
    rw [testBit_replaceBits, if_pos (List.mem_of_getElem? h), testBit_spread k hnodup h]
  off q h := by rw [testBit_replaceBits, if_neg h]

theorem BasisIndex.replaceBits_lt_count {qubits : List Nat} {width i : Nat} (hi : i < count width)
    (hlt : ∀ q ∈ qubits, q < width) (k : Nat) : replaceBits i k qubits < count width := by
  have hsame : SameOff {q | q ∈ qubits} i (replaceBits i k qubits) := by
    intro q (hq : q ∉ qubits)
    rw [testBit_replaceBits, if_neg hq]
  exact hsame.lt_count hlt hi

/-! ### Rows of old amplitudes -/

namespace Statevector

/-- The entry of a matrix at a row and a column, and zero where it has none. -/
def entryAt [Zero A] (m : List (List A)) (row column : Nat) : A := (m[row]?.getD [])[column]?.getD 0

theorem rowSum_eq_sum [CommRing A] (row : List A) (a : Nat → A) :
    rowSum row a = ∑ k ∈ range row.length, row[k]?.getD 0 * a k := by
  induction row using List.reverseRecOn with
  | nil => rfl
  | append_singleton row x ih =>
    have hlast : rowSum (row ++ [x]) a = rowSum row a + x * a row.length := by
      simp [rowSum, List.zipIdx_append]
    have hbefore : ∑ k ∈ range row.length, (row ++ [x])[k]?.getD 0 * a k =
        ∑ k ∈ range row.length, row[k]?.getD 0 * a k := by
      refine sum_congr rfl fun k hk => ?_
      rw [List.getElem?_append_left (mem_range.1 hk)]
    rw [hlast, ih, List.length_append, List.length_singleton, sum_range_succ, hbefore]
    simp

theorem length_row {n row : Nat} {m : List (List A)} (hm : Operation.hasSide n m = true)
    (hrow : row < count n) : (m[row]?.getD []).length = count n := by
  obtain ⟨hrows, hcolumns⟩ : m.length = count n ∧ ∀ r ∈ m, r.length = count n := by
    simpa [Operation.hasSide] using hm
  rw [List.getElem?_eq_getElem (hrows ▸ hrow), Option.getD_some]
  exact hcolumns _ (List.getElem_mem _)

theorem amplitude_applyMatrix [CommRing A] (s : Statevector A) {qubits : List Nat}
    {m : List (List A)} (hm : Operation.hasSide qubits.length m = true) {i : Nat}
    (hi : i < count s.width) : (s.applyMatrix qubits m).amplitude i =
      ∑ k ∈ range (count qubits.length),
        entryAt m (bitsAt i qubits) k * s.amplitude (replaceBits i k qubits) := by
  rw [applyMatrix_eq s hm, amplitude_gather _ _ hi, rowSum_eq_sum,
    length_row hm (bitsAt_lt i qubits)]
  rfl

theorem amplitude_applyIf [CommRing A] (s : Statevector A) {controls : List Nat} {target : Nat}
    (htarget : target ∉ controls) (g : Gate A) {i : Nat} (hi : i < count s.width) :
    (s.applyIf controls target g).amplitude i =
      if controls.all i.testBit then
        g.entry (i.testBit target) false * s.amplitude (withBit i target false) +
          g.entry (i.testBit target) true * s.amplitude (withBit i target true)
      else s.amplitude i := by
  have hcontrols : controls.all (withBit i target false).testBit = controls.all i.testBit := by
    refine all_testBit_congr fun q hq => ?_
    rw [testBit_withBit, if_neg fun heq : target = q => htarget (heq ▸ hq)]
  rw [applyIf_eq, amplitude_gather _ _ hi]
  dsimp only
  rw [hcontrols]
  cases i.testBit target <;> rfl

end Statevector

open Statevector in
/-- A matrix makes of the old amplitudes at the indices that differ at its qubits those that its rows
say, the first qubit being the least significant bit of rows and columns. A gate under controls does so
where every control is one, with its own row of two, and changes nothing elsewhere. A matrix of the
wrong shape is refused, and leaves the state as it is. -/
theorem matrices_act [CommRing A] [Scalar R] (s : Statevector A) {qubits : List Nat}
    (hnodup : qubits.Nodup) (hlt : ∀ q ∈ qubits, q < s.width) :
    (∀ i, bitsAt i qubits < count qubits.length ∧ Replaces qubits i (bitsAt i qubits) i) ∧
    (∀ i < count s.width, ∀ k,
      replaceBits i k qubits < count s.width ∧ Replaces qubits i k (replaceBits i k qubits)) ∧
    (∀ m : List (List A), Operation.hasSide qubits.length m = true → ∀ i < count s.width,
      (s.applyMatrix qubits m).amplitude i = ∑ k ∈ range (count qubits.length),
        entryAt m (bitsAt i qubits) k * s.amplitude (replaceBits i k qubits)) ∧
    (∀ controls target, qubits = target :: controls → ∀ g : Gate A, ∀ i < count s.width,
      (s.applyIf controls target g).amplitude i =
        if controls.all i.testBit then
          g.entry (i.testBit target) false * s.amplitude (withBit i target false) +
            g.entry (i.testBit target) true * s.amplitude (withBit i target true)
        else s.amplitude i) ∧
    (∀ (m : Matrix) (params : List Float),
      Operation.named (R := R) Catalog.unitaryName qubits params (some m) =
        if Operation.hasSide qubits.length m then
          .ok (.matrix qubits (m.map fun row => row.map .ofFloats))
        else .error (.invalidRequest (.matrixShape qubits.length))) ∧
    ∀ (m : List (List (Complex R))) (t : Statevector (Complex R)),
      (Operation.matrix qubits m).apply t =
        if Operation.hasSide qubits.length m then t.applyMatrix qubits m else t := by
  refine ⟨fun i => ⟨bitsAt_lt i qubits, replaces_bitsAt i qubits⟩,
    fun i hi k => ⟨replaceBits_lt_count hi hlt k, replaces_replaceBits hnodup i k⟩,
    fun m hm i hi => amplitude_applyMatrix s hm hi, ?_, fun m params => ?_, fun m t => rfl⟩
  · rintro controls target rfl g i hi
    exact amplitude_applyIf s (List.nodup_cons.1 hnodup).1 g hi
  · rw [Operation.named, if_pos rfl]

/-- A matrix on the third and the first qubit of three, in this order: the third one is the least
significant bit of its rows. -/
theorem matrix_on_third_and_first :
    [2, 0].Nodup ∧ (∀ q ∈ [2, 0], q < 3) ∧
    ∀ i < 8, ((Statevector.zero 3 : Statevector ℤ).applyMatrix [2, 0]
        [[2, 3, 4, 5], [6, 7, 8, 9], [10, 11, 12, 13], [14, 15, 16, 17]]).amplitude i =
      [2, 10, 0, 0, 6, 14, 0, 0][i]?.getD 0 := by
  have hnodup : [2, 0].Nodup := by decide
  have hlt : ∀ q ∈ [2, 0], q < 3 := by decide
  refine ⟨hnodup, hlt, fun i hi => ?_⟩
  have hamplitude := (matrices_act (R := Float) (Statevector.zero 3 : Statevector ℤ) hnodup hlt).2.2.1
    [[2, 3, 4, 5], [6, 7, 8, 9], [10, 11, 12, 13], [14, 15, 16, 17]] rfl i hi
  rw [hamplitude]
  revert i
  decide

end QuantumRelay
