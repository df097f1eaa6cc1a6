import QuantumRelay.Proofs.Statevector.Matrix
import QuantumRelay.Proofs.Statevector.Weight

/-!
# Unitary gates

Gates and matrices that keep the lengths of amplitudes are `Isometric`. A matrix with orthonormal columns
does so (`UnitaryMatrix.isometric`), and so does every gate of the catalog, whatever its angles are:
`Operation.isometric_named`.
-/

namespace QuantumRelay

open BasisIndex Finset

/-! ### Conjugates -/

namespace Complex

def conj : Complex ℝ →+* Complex ℝ where
  toFun a := ⟨a.re, -a.im⟩
  map_one' := ext rfl neg_zero
  map_zero' := ext rfl neg_zero
  map_mul' a b := by
    apply ext
    · simp
    · simp only [mul_im]
      ring
  map_add' a b := ext rfl (neg_add ..)

def real : ℝ →+* Complex ℝ where
  toFun r := ⟨r, 0⟩
  map_one' := rfl
  map_zero' := rfl
  map_mul' a b := by apply ext <;> simp
  map_add' a b := ext rfl (add_zero 0).symm

theorem real_normSq (a : Complex ℝ) : real a.normSq = conj a * a := by
  apply ext
  · simp [real, conj, normSq]
  · simp only [real, conj, RingHom.coe_mk, MonoidHom.coe_mk, OneHom.coe_mk, mul_im]
    ring

theorem real_injective {r r' : ℝ} (h : real r = real r') : r = r' := congrArg re h

end Complex

/-! ### Matrices -/

/-- A matrix keeps the length of every list of amplitudes that it is applied to. -/
def Statevector.Isometric (n : Nat) (m : List (List (Complex ℝ))) : Prop :=
  ∀ v : Nat → Complex ℝ, ∑ row ∈ range (count n), (∑ k ∈ range (count n), entryAt m row k * v k).normSq =
    ∑ k ∈ range (count n), (v k).normSq

open Statevector in
def UnitaryMatrix (m : List (List (Complex ℝ))) : Prop :=
  ∀ j < m.length, ∀ k < m.length,
    ∑ row ∈ range m.length, Complex.conj (entryAt m row j) * entryAt m row k = if j = k then 1 else 0

open Statevector in
theorem UnitaryMatrix.isometric {n : Nat} {m : List (List (Complex ℝ))} (h : UnitaryMatrix m)
    (hm : m.length = count n) : Isometric n m := by
  intro v
  rw [← hm]
  apply Complex.real_injective
  simp only [map_sum, Complex.real_normSq, map_mul]
  let N := range m.length
  -- Summed over the rows first, the products of the entries are the inner products of two columns.
  calc ∑ row ∈ N, (∑ j ∈ N, Complex.conj (entryAt m row j) * Complex.conj (v j)) *
          ∑ k ∈ N, entryAt m row k * v k
      = ∑ row ∈ N, ∑ j ∈ N, ∑ k ∈ N,
          Complex.conj (entryAt m row j) * entryAt m row k * (Complex.conj (v j) * v k) := by
        refine sum_congr rfl fun row _ => ?_
        rw [sum_mul_sum]
        exact sum_congr rfl fun j _ => sum_congr rfl fun k _ => mul_mul_mul_comm ..
    _ = ∑ j ∈ N, ∑ k ∈ N, (∑ row ∈ N, Complex.conj (entryAt m row j) * entryAt m row k) *
          (Complex.conj (v j) * v k) := by
        rw [sum_comm]
        refine sum_congr rfl fun j _ => ?_
        rw [sum_comm]
        exact sum_congr rfl fun k _ => (sum_mul ..).symm
    _ = ∑ j ∈ N, Complex.conj (v j) * v j := by
        refine sum_congr rfl fun j hj => ?_
        refine (sum_eq_single_of_mem j hj fun k hk hne => ?_).trans ?_
        · rw [h j (mem_range.1 hj) k (mem_range.1 hk), if_neg hne.symm, zero_mul]
        · rw [h j (mem_range.1 hj) j (mem_range.1 hj), if_pos rfl, one_mul]

/-! ### Gates on one qubit -/

theorem cos_mul_self_add (a : ℝ) :
    (Scalar.cos a : ℝ) * Scalar.cos a + Scalar.sin a * Scalar.sin a = 1 := by
  have h := Real.cos_sq_add_sin_sq a
  rwa [sq, sq] at h

theorem rootHalf_mul_self : (Scalar.rootHalf : ℝ) * Scalar.rootHalf = 1 / 2 := by
  show 1 / √2 * (1 / √2) = (1 : ℝ) / 2
  rw [div_mul_div_comm, one_mul, Real.mul_self_sqrt zero_le_two]

theorem Complex.normSq_polar (length angle : ℝ) : (polar length angle).normSq = length * length := by
  have h := cos_mul_self_add angle
  simp only [normSq, polar]
  linear_combination length * length * h

theorem Complex.normSq_ofReal (r : ℝ) : (ofReal r).normSq = r * r := by simp [normSq, ofReal]

namespace Gate

/-- A gate keeps the length of every two amplitudes. -/
def Isometric (g : Gate (Complex ℝ)) : Prop :=
  ∀ x y : Complex ℝ, (g.m00 * x + g.m01 * y).normSq + (g.m10 * x + g.m11 * y).normSq =
    x.normSq + y.normSq

/-- The columns of a gate are orthonormal. -/
structure Unitary (g : Gate (Complex ℝ)) : Prop where
  first : g.m00.normSq + g.m10.normSq = 1
  second : g.m01.normSq + g.m11.normSq = 1
  /-- The real part of the product of the columns. -/
  re_eq : g.m00.re * g.m01.re + g.m00.im * g.m01.im + g.m10.re * g.m11.re + g.m10.im * g.m11.im = 0
  /-- The imaginary part of it. -/
  im_eq : g.m00.re * g.m01.im - g.m00.im * g.m01.re + g.m10.re * g.m11.im - g.m10.im * g.m11.re = 0

theorem Unitary.isometric {g : Gate (Complex ℝ)} (h : g.Unitary) : g.Isometric := by
  intro x y
  have hfirst := h.first
  have hsecond := h.second
  simp only [Complex.normSq] at hfirst hsecond
  simp only [Complex.normSq, Complex.add_re, Complex.add_im, Complex.mul_re, Complex.mul_im]
  linear_combination (x.re * x.re + x.im * x.im) * hfirst + (y.re * y.re + y.im * y.im) * hsecond +
    2 * (x.re * y.re + x.im * y.im) * h.re_eq + 2 * (x.im * y.re - x.re * y.im) * h.im_eq

theorem Isometric.times {g : Gate (Complex ℝ)} (h : g.Isometric) {z : Complex ℝ} (hz : z.normSq = 1) :
    (g.times z).Isometric := by
  intro x y
  have hpull (a b : Complex ℝ) : a * z * x + b * z * y = z * (a * x + b * y) := by ring
  rw [Gate.times, hpull, hpull, Complex.normSq_mul, Complex.normSq_mul, hz, one_mul, one_mul]
  exact h x y

theorem unitary_diagonal {a d : Complex ℝ} (ha : a.normSq = 1) (hd : d.normSq = 1) :
    Unitary ⟨a, 0, 0, d⟩ := by
  constructor <;> simp [ha, hd]

theorem unitary_antidiagonal {b c : Complex ℝ} (hb : b.normSq = 1) (hc : c.normSq = 1) :
    Unitary ⟨0, b, c, 0⟩ := by
  constructor <;> simp [hb, hc]

theorem unitary_pauliX : (pauliX : Gate (Complex ℝ)).Unitary :=
  unitary_antidiagonal Complex.normSq_one Complex.normSq_one

theorem unitary_pauliY : (pauliY : Gate (Complex ℝ)).Unitary :=
  unitary_antidiagonal (by simp [Complex.normSq]) (by simp [Complex.normSq, Complex.i])

theorem unitary_pauliZ : (pauliZ : Gate (Complex ℝ)).Unitary :=
  unitary_diagonal Complex.normSq_one (by simp [Complex.normSq])

theorem unitary_phase (angle : ℝ) : (phase angle).Unitary :=
  unitary_diagonal Complex.normSq_one (by rw [Complex.normSq_polar, one_mul])

theorem unitary_rotationZ (angle : ℝ) : (rotationZ angle).Unitary :=
  unitary_diagonal (by rw [Complex.normSq_polar, one_mul]) (by rw [Complex.normSq_polar, one_mul])

theorem unitary_hadamard : (hadamard : Gate (Complex ℝ)).Unitary := by
  have h := rootHalf_mul_self
  constructor
  · simp only [hadamard, Complex.normSq_ofReal]
    linarith
  · simp only [hadamard, Complex.normSq_neg, Complex.normSq_ofReal]
    linarith
  · simp only [hadamard, Complex.ofReal, Complex.neg_re, Complex.neg_im]
    ring
  · simp only [hadamard, Complex.ofReal, Complex.neg_re, Complex.neg_im]
    ring

theorem unitary_rootX {sign : ℝ} (hsign : sign * sign = 1) : (rootX sign).Unitary := by
  have hhalf : (Scalar.half 1 : ℝ) = 1 / 2 := rfl
  constructor
  · simp only [rootX, Complex.normSq, hhalf]
    linear_combination 1 / 2 * hsign
  · simp only [rootX, Complex.normSq, hhalf]
    linear_combination 1 / 2 * hsign
  · simp only [rootX, hhalf]
    linear_combination -1 / 2 * hsign
  · simp only [rootX, hhalf]
    ring

theorem unitary_rotation (angle axis : ℝ) : (rotation angle axis).Unitary := by
  have h := cos_mul_self_add (Scalar.half angle)
  have hi : (-Complex.i : Complex ℝ).normSq = 1 := by simp [Complex.normSq, Complex.i]
  have hcos : (Scalar.cos (-axis) : ℝ) = Scalar.cos axis := Real.cos_neg axis
  have hsin : (Scalar.sin (-axis) : ℝ) = -Scalar.sin axis := Real.sin_neg axis
  constructor
  · simpa only [rotation, Complex.normSq_mul, Complex.normSq_polar, Complex.normSq_ofReal, hi,
      one_mul] using h
  · simp only [rotation, Complex.normSq_mul, Complex.normSq_polar, Complex.normSq_ofReal, hi, one_mul]
    rwa [add_comm]
  · simp only [rotation, Complex.ofReal, Complex.polar, Complex.i, hsin, Complex.mul_re, Complex.mul_im,
      Complex.neg_re, Complex.neg_im]
    ring
  · simp only [rotation, Complex.ofReal, Complex.polar, Complex.i, hcos, Complex.mul_re, Complex.mul_im,
      Complex.neg_re, Complex.neg_im]
    ring

theorem unitary_euler (theta phi lambda : ℝ) : (euler theta phi lambda).Unitary := by
  have h := cos_mul_self_add (Scalar.half theta)
  have hre : (Scalar.cos (phi + lambda) : ℝ) * Scalar.cos phi +
      Scalar.sin (phi + lambda) * Scalar.sin phi = Scalar.cos lambda := by
    have hsub := Real.cos_sub (phi + lambda) phi
    rw [add_sub_cancel_left] at hsub
    exact hsub.symm
  have him : (Scalar.sin (phi + lambda) : ℝ) * Scalar.cos phi -
      Scalar.cos (phi + lambda) * Scalar.sin phi = Scalar.sin lambda := by
    have hsub := Real.sin_sub (phi + lambda) phi
    rw [add_sub_cancel_left] at hsub
    exact hsub.symm
  constructor
  · simpa only [euler, Complex.normSq_polar, Complex.normSq_ofReal] using h
  · simp only [euler, Complex.normSq_neg, Complex.normSq_polar]
    linarith
  · simp only [euler, Complex.ofReal, Complex.polar, Complex.neg_re, Complex.neg_im]
    linear_combination Scalar.cos (Scalar.half theta) * Scalar.sin (Scalar.half theta) * hre
  · simp only [euler, Complex.ofReal, Complex.polar, Complex.neg_re, Complex.neg_im]
    linear_combination Scalar.cos (Scalar.half theta) * Scalar.sin (Scalar.half theta) * him

/-- Every gate of the catalog is unitary, whatever its angles are. -/
theorem unitary_named? {name : String} {params : List ℝ} {g : Gate (Complex ℝ)}
    (h : named? name params = some g) : g.Unitary := by
  unfold named? at h
  dsimp only at h
  split at h
  case h_1 => exact Option.some.inj h ▸ unitary_diagonal Complex.normSq_one Complex.normSq_one
  case h_2 => exact Option.some.inj h ▸ unitary_pauliX
  case h_3 => exact Option.some.inj h ▸ unitary_pauliY
  case h_4 => exact Option.some.inj h ▸ unitary_pauliZ
  case h_5 => exact Option.some.inj h ▸ unitary_hadamard
  case h_10 => exact Option.some.inj h ▸ unitary_rootX (one_mul 1)
  case h_11 => exact Option.some.inj h ▸ unitary_rootX (neg_mul_neg 1 1 |>.trans (one_mul 1))
  case h_14 => exact Option.some.inj h ▸ unitary_rotationZ _
  case h_20 => cases h
  all_goals
    obtain rfl := Option.some.inj h
    first | exact unitary_phase _ | exact unitary_rotation _ _ | exact unitary_euler _ _ _

end Gate

/-! ### Gates on two qubits -/

namespace Statevector

theorem entryAt_square {f : Nat → Nat → Complex ℝ} {row k : Nat} (hrow : row < 4) (hk : k < 4) :
    entryAt (Gate.square f) row k = f row k := by
  rw [entryAt, Gate.square, List.getElem?_map, List.getElem?_range hrow]
  simp [hk]

theorem isometric_square {f : Nat → Nat → Complex ℝ}
    (h : ∀ v : Nat → Complex ℝ, ∑ row ∈ range 4, (∑ k ∈ range 4, f row k * v k).normSq =
      ∑ k ∈ range 4, (v k).normSq) : Isometric 2 (Gate.square f) := by
  intro v
  refine Eq.trans (sum_congr rfl fun row hrow => congrArg Complex.normSq ?_) (h v)
  exact sum_congr rfl fun k hk => by rw [entryAt_square (mem_range.1 hrow) (mem_range.1 hk)]

end Statevector

namespace Operation

open Statevector

theorem isometric_jointRotation? {name : String} {angle : ℝ} {m : List (List (Complex ℝ))}
    (h : jointRotation? name angle = some m) : Isometric 2 m := by
  have hangle := cos_mul_self_add (Scalar.half angle)
  unfold jointRotation? at h
  split at h
  case h_5 => cases h
  all_goals
    obtain rfl := Option.some.inj h
    refine isometric_square fun v => ?_
    simp [sum_range_succ, Gate.product, Gate.entry, Gate.pauliX, Gate.pauliY, Gate.pauliZ,
      Complex.ofReal, Complex.scale, Complex.i, Nat.testBit, Complex.normSq]
    linear_combination ((v 0).re ^ 2 + (v 0).im ^ 2 + (v 1).re ^ 2 + (v 1).im ^ 2 + (v 2).re ^ 2 +
      (v 2).im ^ 2 + (v 3).re ^ 2 + (v 3).im ^ 2) * hangle

theorem isometric_crossResonance : Isometric 2 (Gate.crossResonance : List (List (Complex ℝ))) := by
  have h := rootHalf_mul_self
  refine isometric_square fun v => ?_
  simp [sum_range_succ, Gate.product, Gate.entry, Gate.pauliX, Gate.pauliY, Gate.identity,
      Complex.scale, Complex.i, Nat.testBit, Complex.normSq]
  linear_combination 2 * ((v 0).re ^ 2 + (v 0).im ^ 2 + (v 1).re ^ 2 + (v 1).im ^ 2 + (v 2).re ^ 2 +
    (v 2).im ^ 2 + (v 3).re ^ 2 + (v 3).im ^ 2) * h

/-- The gate or the matrix that an operation comes with keeps lengths. -/
def Isometric : Operation ℝ → Prop
  | applyIf _ _ g => g.Isometric
  | matrix qubits m => Statevector.Isometric qubits.length m
  | _ => True

theorem isometric_controlledGate? {name : String} {params : List ℝ} {g : Gate (Complex ℝ)}
    (h : controlledGate? name params = some g) : g.Isometric := by
  unfold controlledGate? at h
  split at h
  case h_1 =>
    obtain rfl := Option.some.inj h
    exact (Gate.unitary_euler _ _ _).isometric.times (by rw [Complex.normSq_polar, one_mul])
  case h_2 => cases h
  case h_3 =>
    obtain ⟨base, -, hg⟩ := Option.bind_eq_some_iff.1 h
    exact (Gate.unitary_named? hg).isometric

theorem isometric_plain? {name : String} {qubits : List Nat} {params : List ℝ}
    {operation : Operation ℝ} (h : plain? name qubits params = some operation) :
    operation.Isometric := by
  unfold plain? at h
  split at h
  case h_9 =>
    obtain rfl := Option.some.inj h
    exact Gate.unitary_pauliZ.isometric
  case h_10 =>
    obtain rfl := Option.some.inj h
    exact isometric_crossResonance
  case h_11 =>
    obtain ⟨g, hg, rfl⟩ := Option.map_eq_some_iff.1 h
    exact (Gate.unitary_named? hg).isometric
  case h_12 =>
    split at h
    · split at h
      · obtain ⟨m, hm, rfl⟩ := Option.map_eq_some_iff.1 h
        exact isometric_jointRotation? hm
      · cases h
    · obtain ⟨g, hg, rfl⟩ := Option.map_eq_some_iff.1 h
      exact isometric_controlledGate? hg
  case h_13 => cases h
  all_goals
    obtain rfl := Option.some.inj h
    trivial

theorem isometric_named {name : String} {qubits : List Nat} {params : List Float} {m : Option Matrix}
    {operation : Operation ℝ} (h : named name qubits params m = .ok operation)
    (hm : ∀ rows, m = some rows → UnitaryMatrix (rows.map fun row => row.map .ofFloats)) :
    operation.Isometric := by
  unfold named at h
  split at h
  · split at h
    · cases h
    · next rows =>
      split at h
      · next hside =>
        obtain rfl := Except.ok.inj h
        have hrows : rows.length = count qubits.length := by
          simp only [hasSide, Bool.and_eq_true, decide_eq_true_eq] at hside
          exact hside.1
        exact (hm rows rfl).isometric ((List.length_map _).trans hrows)
      · cases h
  · split at h
    · next hplain =>
      obtain rfl := Except.ok.inj h
      exact isometric_plain? hplain
    · cases h

end Operation

end QuantumRelay
