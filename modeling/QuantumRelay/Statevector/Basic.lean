import QuantumRelay.Random.Source
import QuantumRelay.Statevector.Gate
import QuantumRelay.Statevector.Index

/-!
# Statevectors

A `Statevector` has one amplitude per basis index. The operations that mix amplitudes are sweeps: they
go through the indices in turn and update, in place, the few amplitudes that belong to each one.
Operations that only move amplitudes work over any amplitudes.
-/

namespace QuantumRelay

structure Statevector (A : Type) where
  width : Nat
  amplitudes : Array A
  size_eq : amplitudes.size = BasisIndex.count width

namespace Statevector

open BasisIndex

variable {A R : Type}

/-- The state with the amplitude `f i` at index `i`. -/
def ofFn (width : Nat) (f : Nat → A) : Statevector A :=
  ⟨width, .ofFn fun i : Fin (count width) => f i, Array.size_ofFn⟩

/-- The amplitude at an index, zero past the last one. -/
def amplitude [Zero A] (s : Statevector A) (i : Nat) : A := s.amplitudes[i]?.getD 0

/-- The state whose amplitude at `i` is `f i`, computed from the amplitudes of the old state. -/
def gather [Zero A] (s : Statevector A) (f : (Nat → A) → Nat → A) : Statevector A :=
  ofFn s.width (f s.amplitude)

@[simp] theorem width_ofFn (width : Nat) (f : Nat → A) : (ofFn width f).width = width := rfl

@[simp] theorem width_gather [Zero A] (s : Statevector A) (f : (Nat → A) → Nat → A) :
    (s.gather f).width = s.width := rfl

theorem amplitude_ofFn [Zero A] {width i : Nat} (f : Nat → A) (h : i < count width) :
    (ofFn width f).amplitude i = f i := by
  rw [ofFn, amplitude, Array.getElem?_ofFn, dif_pos h, Option.getD_some]

theorem amplitude_gather [Zero A] (s : Statevector A) (f : (Nat → A) → Nat → A) {i : Nat}
    (h : i < count s.width) : (s.gather f).amplitude i = f s.amplitude i :=
  amplitude_ofFn _ h

theorem ext_amplitude [Zero A] {s t : Statevector A} (hw : s.width = t.width)
    (h : ∀ i, i < count s.width → s.amplitude i = t.amplitude i) : s = t := by
  obtain ⟨n, a, ha⟩ := s
  obtain ⟨m, b, hb⟩ := t
  obtain rfl : n = m := hw
  obtain rfl : a = b := by
    refine Array.ext (ha.trans hb.symm) fun i hi hj => ?_
    simpa [amplitude, hi, hj] using h i (ha ▸ hi)
  rfl

theorem gather_self [Zero A] (s : Statevector A) : s.gather (fun a i => a i) = s :=
  ext_amplitude rfl fun _ hi => amplitude_gather s _ hi

def zero [Zero A] [One A] (width : Nat) : Statevector A :=
  ofFn width fun i => if i = 0 then 1 else 0

/-! ### Sweeps -/

/-- Write amplitudes to the places of an array in turn. Past the end nothing is written. -/
def writeAt (a : Array A) (places : List Nat) (values : List A) : Array A :=
  (places.zip values).foldl (fun a (p, x) => a.setIfInBounds p x) a

/-- Replace the amplitudes at some places by what `f` makes of them, which reads all of them first.
Past the end it reads zero. -/
def updateAt [Zero A] (f : List A → List A) (places : List Nat) (a : Array A) : Array A :=
  writeAt a places (f (places.map fun p => a[p]?.getD 0))

@[simp] theorem size_writeAt (a : Array A) (places : List Nat) (values : List A) :
    (writeAt a places values).size = a.size := by
  unfold writeAt
  induction places.zip values generalizing a with
  | nil => rfl
  | cons _ _ ih => rw [List.foldl_cons, ih, Array.size_setIfInBounds]

@[simp] theorem size_updateAt [Zero A] (f : List A → List A) (places : List Nat) (a : Array A) :
    (updateAt f places a).size = a.size :=
  size_writeAt ..

/-- The amplitudes after the first `n` indices of a sweep. -/
def sweepTo [Zero A] (places : Nat → List Nat) (f : List A → List A) (n : Nat) (a : Array A) :
    Array A :=
  n.fold (fun i _ a => updateAt f (places i) a) a

@[simp] theorem size_sweepTo [Zero A] (places : Nat → List Nat) (f : List A → List A) (n : Nat)
    (a : Array A) : (sweepTo places f n a).size = a.size := by
  unfold sweepTo
  induction n with
  | zero => rfl
  | succ n ih => rw [Nat.fold_succ, size_updateAt, ih]

/-- Go through the indices of a state in turn and update, in place, the amplitudes at the places that
belong to each one; an index without places is passed over. -/
def sweep [Zero A] (s : Statevector A) (places : Nat → List Nat) (f : List A → List A) :
    Statevector A :=
  ⟨s.width, sweepTo places f (count s.width) s.amplitudes, (size_sweepTo ..).trans s.size_eq⟩

/-- What a function of two amplitudes makes of a list of just two. -/
def ofPair (f : A → A → List A) : List A → List A
  | [x, y] => f x y
  | _ => []

/-- The places of an index at which `target` is zero and every control is one: the index itself and
the one with `target` one. -/
def pairAt (controls : List Nat) (target i : Nat) : List Nat :=
  if controls.all i.testBit && !i.testBit target then [i, withBit i target true] else []

/-- The places of an index at which `left` is one, `right` is zero and every control is one, in a state
that has both qubits: the index itself and the one with `left` and `right` exchanged. -/
def exchangeAt (width : Nat) (controls : List Nat) (left right i : Nat) : List Nat :=
  if left < width && right < width && controls.all i.testBit && i.testBit left && !i.testBit right then
    [i, flip (flip i left) right]
  else []

/-! ### Moving amplitudes -/

/-- Invert `target` where every control is one. -/
def flipIf [Zero A] (s : Statevector A) (controls : List Nat) (target : Nat) : Statevector A :=
  s.sweep (pairAt controls target) List.reverse

/-- Exchange two qubits where every control is one. -/
def swapIf [Zero A] (s : Statevector A) (controls : List Nat) (left right : Nat) :
    Statevector A :=
  s.sweep (exchangeAt s.width controls left right) List.reverse

def swap [Zero A] (s : Statevector A) (left right : Nat) : Statevector A := s.swapIf [] left right

/-- Change the sign where every one of `qubits` is one. -/
def negateIf [Zero A] [Neg A] (s : Statevector A) (qubits : List Nat) : Statevector A :=
  s.sweep (fun i => if qubits.all i.testBit then [i] else []) (List.map (- ·))

/-! ### Matrices -/

/-- Apply a gate to `target` where every control is one. -/
def applyIf [Zero A] [Add A] [Mul A] (s : Statevector A) (controls : List Nat) (target : Nat)
    (g : Gate A) : Statevector A :=
  s.sweep (pairAt controls target) <| ofPair fun x y =>
    [g.m00 * x + g.m01 * y, g.m10 * x + g.m11 * y]

/-- One row of a matrix times amplitudes. -/
def rowSum [Zero A] [Add A] [Mul A] (row : List A) (a : Nat → A) : A :=
  row.zipIdx.foldl (fun sum (m, k) => sum + m * a k) 0

/-- The places of an index at which all of `qubits` are zero: one for each number that their bits can
spell, the first qubit being the least significant bit. -/
def blockAt (qubits : List Nat) (i : Nat) : List Nat :=
  if qubits.any i.testBit then []
  else (List.range (count qubits.length)).map fun k => i ||| spread k qubits

/-- Apply a matrix to `qubits`, the first one being the least significant bit of its row and column
numbers. -/
def applyMatrix [Zero A] [Add A] [Mul A] (s : Statevector A) (qubits : List Nat)
    (m : List (List A)) : Statevector A :=
  s.sweep (blockAt qubits) fun old =>
    let old := old.toArray
    m.map fun row => rowSum row fun k => old[k]?.getD 0

/-! ### Gates over complex amplitudes -/

variable [Scalar R]

def hadamard (s : Statevector (Complex R)) (target : Nat) : Statevector (Complex R) :=
  s.sweep (pairAt [] target) <| ofPair fun x y =>
    [(x + y).scale Scalar.rootHalf, (x - y).scale Scalar.rootHalf]

/-- Exchange two qubits, with the factor `i` where they differ. -/
def iswap (s : Statevector (Complex R)) (left right : Nat) : Statevector (Complex R) :=
  s.sweep (exchangeAt s.width [] left right) <| ofPair fun x y => [Complex.i * y, Complex.i * x]

/-! ### Measurements -/

def probabilityOne (s : Statevector (Complex R)) (qubit : Nat) : R :=
  ((List.range (count s.width)).filter (·.testBit qubit)).foldl
    (fun sum i => sum + (s.amplitude i).normSq) 0

/-- Keep the part of a state in which a qubit reads `outcome`, whose weight is `weight`. -/
def collapse (s : Statevector (Complex R)) (qubit : Nat) (outcome : Bool) (weight : R) :
    Statevector (Complex R) :=
  let factor := if Scalar.less 0 weight then Scalar.inverseRoot weight else 0
  s.gather fun a i => if i.testBit qubit = outcome then (a i).scale factor else 0

/-- Measure a qubit with a random number of the unit interval: it reads one if that is less than the
probability of one. -/
def measureBy (s : Statevector (Complex R)) (qubit : Nat) (draw : R) :
    Bool × Statevector (Complex R) :=
  let one := s.probabilityOne qubit
  let outcome := Scalar.less draw one
  (outcome, s.collapse qubit outcome (if outcome then one else 1 - one))

/-- Measure a qubit and invert it if it reads one. -/
def resetBy (s : Statevector (Complex R)) (qubit : Nat) (draw : R) : Statevector (Complex R) :=
  let (outcome, s) := s.measureBy qubit draw
  if outcome then s.flipIf [] qubit else s

def measure {σ : Type} [DrawSource σ] (s : Statevector (Complex R)) (qubit : Nat) (source : σ) :
    Bool × Statevector (Complex R) × σ :=
  let (draw, source) := DrawSource.next source
  let (outcome, s) := s.measureBy qubit (Scalar.ofDraw draw.val)
  (outcome, s, source)

def reset {σ : Type} [DrawSource σ] (s : Statevector (Complex R)) (qubit : Nat) (source : σ) :
    Statevector (Complex R) × σ :=
  let (draw, source) := DrawSource.next source
  (s.resetBy qubit (Scalar.ofDraw draw.val), source)

end Statevector

end QuantumRelay
