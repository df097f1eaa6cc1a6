import QuantumRelay.Proofs.Statevector.Local

/-!
# Weights over the real numbers

The squared absolute values of the amplitudes of a state add up to its `total`, which is one in the state
that a shot starts in. Those at which a qubit reads a given value add up to the `weight` of that reading:
the two weights of a qubit make up the total, and `probabilityOne` is the one of reading one.
-/

namespace QuantumRelay

open BasisIndex Finset

namespace Complex

variable (a b : Complex ℝ) (r : ℝ)

@[simp] theorem normSq_zero : (0 : Complex ℝ).normSq = 0 := by simp [normSq]

@[simp] theorem normSq_one : (1 : Complex ℝ).normSq = 1 := by simp [normSq]

@[simp] theorem normSq_neg : (-a).normSq = a.normSq := by simp [normSq]

theorem normSq_mul : (a * b).normSq = a.normSq * b.normSq := by
  simp only [normSq, mul_re, mul_im]
  ring

theorem normSq_scale : (a.scale r).normSq = a.normSq * (r * r) := by
  simp only [normSq, scale]
  ring

@[simp] theorem scale_one : a.scale 1 = a := ext (mul_one _) (mul_one _)

end Complex

namespace Statevector

variable (s : Statevector (Complex ℝ))

/-- The sum of the probabilities of all basis states. -/
def total : ℝ := ∑ i ∈ range (count s.width), (s.amplitude i).normSq

/-- The sum of the probabilities of the basis states in which a qubit reads `b`. -/
def weight (qubit : Nat) (b : Bool) : ℝ :=
  ∑ i ∈ range (count s.width) with i.testBit qubit = b, (s.amplitude i).normSq

theorem weight_false_add_weight_true (qubit : Nat) :
    s.weight qubit false + s.weight qubit true = s.total := by
  have hnot (i : Nat) : i.testBit qubit = true ↔ ¬i.testBit qubit = false := by simp
  simp only [weight, hnot]
  exact sum_filter_add_sum_filter_not ..

theorem probabilityOne_eq_weight (qubit : Nat) : s.probabilityOne qubit = s.weight qubit true := by
  have hfilter : (List.range (count s.width)).filter (·.testBit qubit) =
      (List.range (count s.width)).filter fun i => decide (i.testBit qubit = true) :=
    List.filter_congr fun i _ => Bool.decide_eq_true.symm
  rw [probabilityOne, ← List.foldl_map, ← List.sum_eq_foldl, hfilter]
  rfl

theorem total_zero (width : Nat) : (zero width : Statevector (Complex ℝ)).total = 1 := by
  have hpos : 0 < count width := Nat.two_pow_pos width
  have hfirst : (zero width : Statevector (Complex ℝ)).amplitude 0 = 1 := amplitude_ofFn _ hpos
  refine (sum_eq_single_of_mem 0 (mem_range.2 hpos) fun i _ hi => ?_).trans ?_
  · rw [amplitude_zero width hi, Complex.normSq_zero]
  · rw [hfirst, Complex.normSq_one]

/-! ### Rearranged amplitudes -/

theorem sum_of_involutive {width : Nat} {other : Nat → Nat}
    (hlt : ∀ i < count width, other i < count width) (hback : ∀ i, other (other i) = i) (f : Nat → ℝ) :
    ∑ i ∈ range (count width), f (other i) = ∑ i ∈ range (count width), f i := by
  have hmem : ∀ i ∈ range (count width), other i ∈ range (count width) := fun i hi =>
    mem_range.2 (hlt i (mem_range.1 hi))
  exact sum_nbij' other other hmem hmem (fun i _ => hback i) (fun i _ => hback i) fun _ _ => rfl

theorem total_congr {s t : Statevector (Complex ℝ)} (hwidth : t.width = s.width)
    (h : ∀ i < count s.width, (t.amplitude i).normSq = (s.amplitude i).normSq) :
    t.total = s.total := by
  rw [total, total, hwidth]
  exact sum_congr rfl fun i hi => h i (mem_range.1 hi)

theorem total_of_involutive {s t : Statevector (Complex ℝ)} (other : Nat → Nat)
    (hwidth : t.width = s.width) (hlt : ∀ i < count s.width, other i < count s.width)
    (hback : ∀ i, other (other i) = i)
    (h : ∀ i < count s.width, t.amplitude i = s.amplitude (other i)) : t.total = s.total := by
  rw [total, total, hwidth, ← sum_of_involutive hlt hback fun i => (s.amplitude i).normSq]
  exact sum_congr rfl fun i hi => by rw [h i (mem_range.1 hi)]

end Statevector

end QuantumRelay
