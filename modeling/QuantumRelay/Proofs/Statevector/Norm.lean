import QuantumRelay.Proofs.Statevector.Specialised
import QuantumRelay.Proofs.Statevector.Unitary

/-!
# Operations that keep the total

A step keeps the total of a state if it does so within every block of indices that differ at some
qubits only (`total_of_blocks`). A matrix mixes the amplitudes of a block, so it keeps the total if it
keeps the length of every list of amplitudes that it is applied to (`Isometric`).
-/

namespace QuantumRelay

open BasisIndex Finset

/-! ### Blocks of indices -/

theorem BasisIndex.replaceBits_replaceBits (i k k' : Nat) (qubits : List Nat) :
    replaceBits (replaceBits i k qubits) k' qubits = replaceBits i k' qubits := by
  apply Nat.eq_of_testBit_eq
  intro q
  rw [testBit_replaceBits, testBit_replaceBits, testBit_replaceBits]
  split <;> rfl

theorem BasisIndex.replaceBits_singleton (i k q : Nat) :
    replaceBits i k [q] = withBit i q (k.testBit 0) := by
  apply Nat.eq_of_testBit_eq
  intro p
  rw [testBit_replaceBits, testBit_withBit]
  by_cases h : q = p
  · subst h
    have hfirst : [q][0]? = some q := rfl
    rw [if_pos List.mem_cons_self, if_pos rfl, testBit_spread k (List.nodup_singleton q) hfirst]
  · rw [if_neg (by simpa using Ne.symm h), if_neg h]

theorem BasisIndex.clearBits_replaceBits (i k : Nat) (qubits : List Nat) :
    clearBits (replaceBits i k qubits) qubits = clearBits i qubits := by
  apply Nat.eq_of_testBit_eq
  intro q
  rw [testBit_clearBits, testBit_clearBits, testBit_replaceBits]
  by_cases h : q ∈ qubits <;> simp [h]

theorem BasisIndex.sameOff_of_clearBits {qubits : List Nat} {i j : Nat}
    (h : clearBits i qubits = clearBits j qubits) : SameOff {q | q ∈ qubits} i j := by
  intro q (hq : q ∉ qubits)
  have hbit := congrArg (·.testBit q) h
  simpa [testBit_clearBits, hq] using hbit

theorem sum_blocks {width : Nat} {qubits : List Nat} (hnodup : qubits.Nodup)
    (hlt : ∀ q ∈ qubits, q < width) (f : Nat → ℝ) :
    ∑ i ∈ range (count width), f i =
      ∑ b ∈ range (count width) with clearBits b qubits = b,
        ∑ k ∈ range (count qubits.length), f (replaceBits b k qubits) := by
  have hclear : ∀ i ∈ range (count width),
      clearBits i qubits ∈ (range (count width)).filter fun b => clearBits b qubits = b := by
    intro i hi
    refine mem_filter.2 ⟨mem_range.2 (clearBits_lt_count (mem_range.1 hi) qubits), ?_⟩
    apply Nat.eq_of_testBit_eq
    intro q
    rw [testBit_clearBits, testBit_clearBits, Bool.and_assoc, Bool.and_self]
  rw [← sum_fiberwise_of_maps_to hclear]
  refine sum_congr rfl fun b hb => ?_
  obtain ⟨hblt, hbclear⟩ := mem_filter.1 hb
  -- An index of the block of `b` is told by its bits at the qubits, and every number stands for one.
  symm
  refine sum_nbij' (fun k => replaceBits b k qubits) (fun i => bitsAt i qubits) (fun k hk => ?_)
    (fun i _ => mem_range.2 (bitsAt_lt i qubits))
    (fun k hk => bitsAt_replaceBits b hnodup (mem_range.1 hk)) (fun i hi => ?_) fun _ _ => rfl
  · refine mem_filter.2 ⟨mem_range.2 (replaceBits_lt_count (mem_range.1 hblt) hlt k), ?_⟩
    rw [clearBits_replaceBits, hbclear]
  · obtain ⟨-, hi⟩ := mem_filter.1 hi
    exact (sameOff_of_clearBits (hbclear.trans hi.symm)).replaceBits_bitsAt

namespace Statevector

variable {s t : Statevector (Complex ℝ)} {qubits controls : List Nat} {target left right : Nat}

theorem total_of_blocks (qubits : List Nat) (hwidth : t.width = s.width) (hnodup : qubits.Nodup)
    (hlt : ∀ q ∈ qubits, q < s.width)
    (h : ∀ i < count s.width,
      ∑ k ∈ range (count qubits.length), (t.amplitude (replaceBits i k qubits)).normSq =
        ∑ k ∈ range (count qubits.length), (s.amplitude (replaceBits i k qubits)).normSq) :
    t.total = s.total := by
  rw [total, total, hwidth, sum_blocks hnodup hlt fun i => (t.amplitude i).normSq,
    sum_blocks hnodup hlt fun i => (s.amplitude i).normSq]
  exact sum_congr rfl fun b hb => h b (mem_range.1 (mem_filter.1 hb).1)

theorem total_applyMatrix (hnodup : qubits.Nodup) (hlt : ∀ q ∈ qubits, q < s.width)
    {m : List (List (Complex ℝ))} (hm : Operation.hasSide qubits.length m = true)
    (hiso : Isometric qubits.length m) : (s.applyMatrix qubits m).total = s.total := by
  refine total_of_blocks qubits rfl hnodup hlt fun i hi => ?_
  refine Eq.trans (sum_congr rfl fun row hrow => ?_) (hiso fun k => s.amplitude (replaceBits i k qubits))
  rw [amplitude_applyMatrix s hm (replaceBits_lt_count hi hlt row),
    bitsAt_replaceBits i hnodup (mem_range.1 hrow)]
  simp only [replaceBits_replaceBits]

theorem total_applyIf (htarget : target < s.width) (hcontrols : target ∉ controls)
    {g : Gate (Complex ℝ)} (hg : g.Isometric) : (s.applyIf controls target g).total = s.total := by
  refine total_of_blocks [target] rfl (List.nodup_singleton target)
    (by simpa using htarget) fun i hi => ?_
  have hsame (b : Bool) : controls.all (withBit i target b).testBit = controls.all i.testBit := by
    refine all_testBit_congr fun q hq => ?_
    rw [testBit_withBit, if_neg fun heq : target = q => hcontrols (heq ▸ hq)]
  have hpair (f : Nat → ℝ) : ∑ k ∈ range (count [target].length), f (replaceBits i k [target]) =
      f (withBit i target false) + f (withBit i target true) := by
    refine (sum_range_succ _ 1).trans ?_
    rw [sum_range_one, replaceBits_singleton, replaceBits_singleton]
    rfl
  rw [hpair fun i => ((s.applyIf controls target g).amplitude i).normSq,
    hpair fun i => (s.amplitude i).normSq, amplitude_applyIf s hcontrols g (withBit_lt_count hi htarget _),
    amplitude_applyIf s hcontrols g (withBit_lt_count hi htarget _), hsame, hsame]
  split
  · simpa [testBit_withBit, Gate.entry] using hg _ _
  · rfl

/-! ### Exchanges and signs -/

theorem total_swapIf (hleft : left < s.width) (hright : right < s.width) (hnotLeft : left ∉ controls)
    (hnotRight : right ∉ controls) : (s.swapIf controls left right).total = s.total := by
  refine total_of_involutive (fun i => if controls.all i.testBit then exchange i left right else i) rfl
    (fun i hi => ?_) (fun i => ?_) fun i hi => ?_
  · split
    · exact exchange_lt_count hi hleft hright
    · exact hi
  · by_cases h : controls.all i.testBit = true
    · simp only [h, if_true, all_testBit_exchange hnotLeft hnotRight, exchange_exchange]
    · simp [h]
  · rw [amplitude_swapIf s hleft hright hnotLeft hnotRight hi, apply_ite s.amplitude]

theorem total_iswap (hleft : left < s.width) (hright : right < s.width) :
    (s.iswap left right).total = s.total := by
  have hswap : (s.swap left right).total = s.total :=
    total_swapIf hleft hright List.not_mem_nil List.not_mem_nil
  rw [← hswap]
  refine total_congr rfl fun i (hi : i < count s.width) => ?_
  rw [amplitude_iswap s hleft hright hi, Complex.normSq_mul]
  split <;> simp [Complex.normSq, Complex.i]

theorem total_negateIf (qubits : List Nat) : (s.negateIf qubits).total = s.total := by
  refine total_congr rfl fun i hi => ?_
  rw [negateIf_eq, amplitude_gather _ _ hi]
  split
  · rw [Complex.normSq_neg]
  · rfl

end Statevector

/-! ### Operations -/

namespace Operation

theorem total_apply {s : Statevector (Complex ℝ)} {operation : Operation ℝ}
    (hlt : ∀ q ∈ operation.qubits, q < s.width) (hnodup : operation.qubits.Nodup)
    (hiso : operation.Isometric) : (operation.apply s).total = s.total := by
  cases operation with
  | flipIf controls target =>
    rw [apply, Statevector.flipIf_eq_applyIf]
    exact Statevector.total_applyIf (hlt target List.mem_cons_self) (List.nodup_cons.1 hnodup).1
      Gate.unitary_pauliX.isometric
  | swapIf controls left right =>
    obtain ⟨hleft, hright, -⟩ := List.nodup_cons.1 hnodup |>.imp_right List.nodup_cons.1
    exact Statevector.total_swapIf (hlt left (by simp [qubits])) (hlt right (by simp [qubits]))
      (fun h => hleft (List.mem_cons_of_mem _ h)) hright
  | negateIf qubits => exact Statevector.total_negateIf qubits
  | hadamard target =>
    rw [apply, Statevector.hadamard_eq_applyIf]
    exact Statevector.total_applyIf (hlt target List.mem_cons_self) List.not_mem_nil
      Gate.unitary_hadamard.isometric
  | iswap left right =>
    exact Statevector.total_iswap (hlt left (by simp [qubits])) (hlt right (by simp [qubits]))
  | applyIf controls target g =>
    exact Statevector.total_applyIf (hlt target List.mem_cons_self) (List.nodup_cons.1 hnodup).1 hiso
  | matrix qubits m =>
    rw [apply]
    split
    · next hm => exact Statevector.total_applyMatrix hnodup hlt hm hiso
    · rfl

end Operation

end QuantumRelay
