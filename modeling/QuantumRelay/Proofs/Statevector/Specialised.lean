import QuantumRelay.Proofs.Catalog
import QuantumRelay.Proofs.Statevector.Local
import QuantumRelay.Proofs.Statevector.Matrix

/-!
# Operations with a sweep of their own

The gates that are used most are not multiplied out: they have sweeps of their own, which leave the same
state as the sweeps of a gate or of a matrix do with the matrix that the gate is known by
(`specialised_eq_generic`). With controls a gate does to the amplitudes at which every control is one what
it does without them, and nothing to the others (`Controls`).
-/

namespace QuantumRelay

open BasisIndex Finset

variable {A R : Type}

theorem Complex.ofReal_mul [ExactScalar R] (r : R) (a : Complex R) : ofReal r * a = a.scale r := by
  apply ext <;> simp [ofReal, scale, mul_comm]

namespace Statevector

/-! ### Gates on one qubit -/

section gates

variable [ExactScalar R] (s : Statevector (Complex R)) {controls : List Nat} {target : Nat}

theorem flipIf_eq_applyIf (controls : List Nat) (target : Nat) :
    s.flipIf controls target = s.applyIf controls target .pauliX := by
  rw [flipIf_eq, applyIf_eq]
  refine congrArg s.gather ?_
  funext a i
  cases hbit : i.testBit target with
  | false => simp [Gate.pauliX, withBit_of_ne (by simp [hbit] : i.testBit target ≠ true)]
  | true => simp [Gate.pauliX, withBit_of_ne (by simp [hbit] : i.testBit target ≠ false)]

theorem hadamard_eq_applyIf (target : Nat) : s.hadamard target = s.applyIf [] target .hadamard := by
  rw [hadamard_eq, applyIf_eq]
  refine congrArg s.gather ?_
  funext a i
  simp only [Gate.hadamard, List.all_nil, if_true, neg_mul, Complex.ofReal_mul]
  split
  · apply Complex.ext <;> simp [Complex.scale, sub_eq_add_neg, add_mul]
  · apply Complex.ext <;> simp [Complex.scale, add_mul]

theorem negateIf_eq_applyIf (htarget : target ∉ controls) :
    s.negateIf (controls ++ [target]) = s.applyIf controls target .pauliZ := by
  refine ext_amplitude rfl fun i (hi : i < count s.width) => ?_
  have hminus : (⟨-1, 0⟩ : Complex R) * s.amplitude i = -s.amplitude i := by
    apply Complex.ext <;> simp
  rw [negateIf_eq, amplitude_gather _ _ hi, amplitude_applyIf s htarget _ hi, List.all_append]
  cases hbit : i.testBit target with
  | false => simp [hbit, Gate.entry, Gate.pauliZ, withBit_of_eq hbit]
  | true => simp [hbit, Gate.entry, Gate.pauliZ, withBit_of_eq hbit, hminus]

end gates

/-! ### Matrices with one entry in a row -/

def swapMatrix [Zero A] [One A] : List (List A) :=
  [[1, 0, 0, 0],
   [0, 0, 1, 0],
   [0, 1, 0, 0],
   [0, 0, 0, 1]]

/-- The matrix that exchanges two qubits, with the factor `i` where they differ. -/
def iswapMatrix [Scalar R] : List (List (Complex R)) :=
  [[1, 0, 0, 0],
   [0, 0, Complex.i, 0],
   [0, Complex.i, 0, 0],
   [0, 0, 0, 1]]

/-- The matrix that exchanges the second and the third qubit where the first one is one. -/
def fredkinMatrix [Zero A] [One A] : List (List A) :=
  [[1, 0, 0, 0, 0, 0, 0, 0],
   [0, 1, 0, 0, 0, 0, 0, 0],
   [0, 0, 1, 0, 0, 0, 0, 0],
   [0, 0, 0, 0, 0, 1, 0, 0],
   [0, 0, 0, 0, 1, 0, 0, 0],
   [0, 0, 0, 1, 0, 0, 0, 0],
   [0, 0, 0, 0, 0, 0, 1, 0],
   [0, 0, 0, 0, 0, 0, 0, 1]]

theorem entryAt_swapMatrix [Zero A] [One A] (a b : Bool) {k : Nat} (hk : k < 4) :
    entryAt (swapMatrix : List (List A)) (a.toNat + 2 * b.toNat) k =
      if k = b.toNat + 2 * a.toNat then 1 else 0 := by
  cases a <;> cases b <;> interval_cases k <;> rfl

theorem entryAt_iswapMatrix [Scalar R] (a b : Bool) {k : Nat} (hk : k < 4) :
    entryAt (iswapMatrix : List (List (Complex R))) (a.toNat + 2 * b.toNat) k =
      if k = b.toNat + 2 * a.toNat then (if a = b then 1 else Complex.i) else 0 := by
  cases a <;> cases b <;> interval_cases k <;> rfl

theorem entryAt_fredkinMatrix [Zero A] [One A] (c a b : Bool) {k : Nat} (hk : k < 8) :
    entryAt (fredkinMatrix : List (List A)) (c.toNat + 2 * (a.toNat + 2 * b.toNat)) k =
      if k = c.toNat + 2 * (if c then b.toNat + 2 * a.toNat else a.toNat + 2 * b.toNat) then 1 else 0 := by
  cases c <;> cases a <;> cases b <;> interval_cases k <;> rfl

theorem amplitude_applyMatrix_of_row [CommRing A] (s : Statevector A) {qubits : List Nat}
    {m : List (List A)} (hm : Operation.hasSide qubits.length m = true) {i j : Nat} {x : A}
    (hi : i < count s.width) (hoff : SameOff {q | q ∈ qubits} i j)
    (hrow : ∀ k < count qubits.length,
      entryAt m (bitsAt i qubits) k = if k = bitsAt j qubits then x else 0) :
    (s.applyMatrix qubits m).amplitude i = x * s.amplitude j := by
  rw [amplitude_applyMatrix s hm hi,
    sum_eq_single_of_mem (bitsAt j qubits) (mem_range.2 (bitsAt_lt j qubits))]
  · rw [hrow _ (bitsAt_lt j qubits), if_pos rfl, hoff.replaceBits_bitsAt]
  · intro k hk hne
    rw [hrow k (mem_range.1 hk), if_neg hne, zero_mul]

/-! ### Exchanges -/

section exchanges

variable {control left right : Nat}

theorem swap_eq_applyMatrix [CommRing A] (s : Statevector A) (hleft : left < s.width)
    (hright : right < s.width) (hne : left ≠ right) :
    s.swap left right = s.applyMatrix [left, right] swapMatrix := by
  refine ext_amplitude rfl fun i (hi : i < count s.width) => ?_
  rw [amplitude_swap s hleft hright hi]
  refine ((amplitude_applyMatrix_of_row s rfl hi
    (sameOff_exchange (by simp) (by simp) i) fun k hk => ?_).trans (one_mul _)).symm
  simpa [bitsAt, testBit_exchange, hne.symm] using entryAt_swapMatrix _ _ hk

theorem amplitude_iswap [ExactScalar R] (s : Statevector (Complex R)) (hleft : left < s.width)
    (hright : right < s.width) {i : Nat} (hi : i < count s.width) :
    (s.iswap left right).amplitude i =
      (if i.testBit left = i.testBit right then 1 else Complex.i) * (s.swap left right).amplitude i := by
  rw [amplitude_swap s hleft hright hi, iswap_eq, amplitude_gather _ _ hi]
  by_cases h : i.testBit left = i.testBit right
  · simp [h, exchange_of_eq h]
  · simp [h, hleft, hright, exchange_of_ne h]

theorem iswap_eq_applyMatrix [ExactScalar R] (s : Statevector (Complex R)) (hleft : left < s.width)
    (hright : right < s.width) (hne : left ≠ right) :
    s.iswap left right = s.applyMatrix [left, right] iswapMatrix := by
  refine ext_amplitude rfl fun i (hi : i < count s.width) => ?_
  rw [amplitude_iswap s hleft hright hi, amplitude_swap s hleft hright hi]
  refine (amplitude_applyMatrix_of_row s rfl hi (sameOff_exchange (by simp) (by simp) i)
    fun k hk => ?_).symm
  simpa [bitsAt, testBit_exchange, hne.symm] using entryAt_iswapMatrix _ _ hk

theorem swapIf_eq_applyMatrix [CommRing A] (s : Statevector A) (hleft : left < s.width)
    (hright : right < s.width) (hnodup : [control, left, right].Nodup) :
    s.swapIf [control] left right = s.applyMatrix [control, left, right] fredkinMatrix := by
  obtain ⟨⟨hcleft, hcright⟩, hne⟩ : (control ≠ left ∧ control ≠ right) ∧ left ≠ right := by
    simpa using hnodup
  refine ext_amplitude rfl fun i (hi : i < count s.width) => ?_
  rw [amplitude_swapIf s hleft hright (by simp [hcleft.symm]) (by simp [hcright.symm]) hi,
    ← apply_ite s.amplitude]
  refine ((amplitude_applyMatrix_of_row s rfl hi ?_ fun k hk => ?_).trans (one_mul _)).symm
  · split
    · exact sameOff_exchange (by simp) (by simp) i
    · exact fun _ _ => rfl
  · refine (entryAt_fredkinMatrix _ _ _ hk).trans ?_
    cases hcontrol : i.testBit control <;>
      simp [bitsAt, testBit_exchange, hcontrol, hne.symm, hcleft.symm, hcright.symm]

theorem swap_swap [Zero A] (s : Statevector A) (hleft : left < s.width) (hright : right < s.width) :
    (s.swap left right).swap left right = s := by
  refine ext_amplitude rfl fun i (hi : i < count s.width) => ?_
  rw [amplitude_swap (s.swap left right) hleft hright hi,
    amplitude_swap s hleft hright (exchange_lt_count hi hleft hright), exchange_exchange]

end exchanges

/-! ### Controls -/

/-- A state `u` is `t` where every control is one, and `s` elsewhere. -/
structure Controls [Zero A] (controls : List Nat) (s t u : Statevector A) : Prop where
  width_eq : u.width = s.width
  amplitude : ∀ i < count s.width,
    u.amplitude i = if controls.all i.testBit then t.amplitude i else s.amplitude i

theorem controls_applyIf [CommRing A] (s : Statevector A) {controls : List Nat} {target : Nat}
    (htarget : target ∉ controls) (g : Gate A) :
    Controls controls s (s.applyIf [] target g) (s.applyIf controls target g) where
  width_eq := rfl
  amplitude i hi := by
    rw [amplitude_applyIf s htarget g hi, amplitude_applyIf s List.not_mem_nil g hi, List.all_nil,
      if_pos rfl]

theorem controls_swapIf [Zero A] (s : Statevector A) {controls : List Nat} {left right : Nat}
    (hleft : left < s.width) (hright : right < s.width) (hnotLeft : left ∉ controls)
    (hnotRight : right ∉ controls) :
    Controls controls s (s.swap left right) (s.swapIf controls left right) where
  width_eq := rfl
  amplitude i hi := by
    rw [amplitude_swapIf s hleft hright hnotLeft hnotRight hi, amplitude_swap s hleft hright hi]

end Statevector

namespace Operation

open Statevector

/-- The gates of the catalog that are others under controls: a gate, how many controls come first, the
gate that they control, and how many qubits and parameters that one takes. The gate `cu` has a phase of
its own and is not among them. -/
inductive Controlled : String → UInt32 → String → UInt32 → UInt32 → Prop where
  | cx : Controlled "cx" 1 "x" 1 0
  | cy : Controlled "cy" 1 "y" 1 0
  | cz : Controlled "cz" 1 "z" 1 0
  | ch : Controlled "ch" 1 "h" 1 0
  | crx : Controlled "crx" 1 "rx" 1 1
  | cry : Controlled "cry" 1 "ry" 1 1
  | crz : Controlled "crz" 1 "rz" 1 1
  | cp : Controlled "cp" 1 "p" 1 1
  | ccx : Controlled "ccx" 2 "x" 1 0
  | ccz : Controlled "ccz" 2 "z" 1 0
  | cswap : Controlled "cswap" 1 "swap" 2 0

theorem exists_controlled {name : String} (h : name ∈ Catalog.unitaryNames)
    (hstem : (Catalog.afterStem? "c" name).isSome) :
    name = "cu" ∨ ∃ n base arity count, Controlled name n base arity count := by
  have hnames : ∀ name ∈ Catalog.unitaryNames, (Catalog.afterStem? "c" name).isSome →
      name ∈ ["cu", "cx", "cy", "cz", "ch", "crx", "cry", "crz", "cp", "ccx", "ccz", "cswap"] := by
    decide
  have hname := hnames name h hstem
  simp only [List.mem_cons, List.not_mem_nil, or_false] at hname
  refine hname.imp_right fun hname => ?_
  rcases hname with rfl | rfl | rfl | rfl | rfl | rfl | rfl | rfl | rfl | rfl | rfl
  all_goals exact ⟨_, _, _, _, by constructor⟩

/-- The catalog asks for the qubits of the base and as many more as there are controls. -/
theorem Controlled.find? {name base : String} {n arity count : UInt32}
    (h : Controlled name n base arity count) :
    Catalog.find? name = some (.gate (n + arity) count) ∧
      Catalog.find? base = some (.gate arity count) := by
  cases h <;> exact ⟨rfl, rfl⟩

variable [ExactScalar R] (s : Statevector (Complex R))

theorem controls_of_gate {controls : List Nat} {target : Nat} (htarget : target ∉ controls)
    {g : Gate (Complex R)} {controlled gate : Operation R}
    (hcontrolled : controlled.apply s = s.applyIf controls target g)
    (hgate : gate.apply s = s.applyIf [] target g) :
    Controls controls s (gate.apply s) (controlled.apply s) := by
  rw [hcontrolled, hgate]
  exact controls_applyIf s htarget g

theorem controls_named {name base : String} {n arity count : UInt32}
    (h : Controlled name n base arity count) {controls targets : List Nat} {params : List Float}
    (hcontrols : controls.length = n.toNat) (htargets : targets.length = arity.toNat)
    (hparams : params.length = count.toNat) (hnodup : (controls ++ targets).Nodup)
    (hlt : ∀ q ∈ controls ++ targets, q < s.width) :
    ∃ controlled gate : Operation R, named name (controls ++ targets) params none = .ok controlled ∧
      named base targets params none = .ok gate ∧
      Controls controls s (gate.apply s) (controlled.apply s) := by
  have hdisjoint : ∀ t ∈ targets, t ∉ controls := fun t ht hc =>
    (List.nodup_append.1 hnodup).2.2 t hc t ht rfl
  cases h
  all_goals first
    | obtain ⟨c, rfl⟩ := List.length_eq_one_iff.1 hcontrols
    | obtain ⟨c, d, rfl⟩ := List.length_eq_two.1 hcontrols
  all_goals first
    | obtain ⟨t, rfl⟩ := List.length_eq_one_iff.1 htargets
    | obtain ⟨a, b, rfl⟩ := List.length_eq_two.1 htargets
  all_goals first
    | obtain rfl := List.length_eq_zero_iff.1 hparams
    | obtain ⟨x, rfl⟩ := List.length_eq_one_iff.1 hparams
  all_goals refine ⟨_, _, rfl, rfl, ?_⟩
  case cswap =>
    exact controls_swapIf s (hlt a (by simp)) (hlt b (by simp)) (hdisjoint a (by simp))
      (hdisjoint b (by simp))
  all_goals have htarget := hdisjoint t List.mem_cons_self
  case cx | ccx => exact controls_of_gate s htarget (flipIf_eq_applyIf ..) (flipIf_eq_applyIf ..)
  case cz => exact controls_of_gate s htarget (negateIf_eq_applyIf s htarget) rfl
  case ch => exact controls_of_gate s htarget rfl (hadamard_eq_applyIf ..)
  -- The other ones are swept as gates already, with and without controls.
  all_goals exact controls_of_gate s htarget rfl rfl

/-- The gate `cu` is `u` under a control, with a phase. -/
theorem amplitude_cu {c t : Nat} (hne : t ≠ c) (theta phi lambda gamma : Float) :
    ∃ controlled gate : Operation R,
      named "cu" [c, t] [theta, phi, lambda, gamma] none = .ok controlled ∧
      named "u" [t] [theta, phi, lambda] none = .ok gate ∧
      ∀ i < count s.width, (controlled.apply s).amplitude i =
        if i.testBit c then
          Complex.polar 1 (Scalar.ofFloat gamma) * (gate.apply s).amplitude i
        else s.amplitude i := by
  refine ⟨_, _, rfl, rfl, fun i hi => ?_⟩
  have htimes (g : Gate (Complex R)) (z : Complex R) (row column : Bool) :
      (g.times z).entry row column = g.entry row column * z := by
    cases row <;> cases column <;> rfl
  simp only [apply]
  rw [amplitude_applyIf s (by simpa using hne) _ hi, amplitude_applyIf s List.not_mem_nil _ hi]
  simp only [List.all_cons, List.all_nil, Bool.and_true, if_true, htimes]
  split
  · ring
  · rfl

end Operation

open Statevector Operation in
/-- The gates with sweeps of their own leave the states that their matrices do, on the same qubits. A
swap exchanges two bits of every index, so that another one undoes it. Every gate of the catalog that is
one under controls is carried out as that one is where every control is one, and changes nothing
elsewhere; `cu` adds its phase there. -/
theorem specialised_eq_generic [ExactScalar R] (s : Statevector (Complex R)) {qubits : List Nat}
    (hnodup : qubits.Nodup) (hlt : ∀ q ∈ qubits, q < s.width) :
    (∀ q, qubits = [q] →
      s.flipIf [] q = s.applyIf [] q .pauliX ∧ s.hadamard q = s.applyIf [] q .hadamard) ∧
    (∀ c t, qubits = [c, t] →
      s.flipIf [c] t = s.applyIf [c] t .pauliX ∧ s.negateIf [c, t] = s.applyIf [c] t .pauliZ) ∧
    (∀ c d t, qubits = [c, d, t] → s.flipIf [c, d] t = s.applyIf [c, d] t .pauliX) ∧
    (∀ a b, qubits = [a, b] →
      s.swap a b = s.applyMatrix [a, b] swapMatrix ∧ s.iswap a b = s.applyMatrix [a, b] iswapMatrix) ∧
    (∀ c a b, qubits = [c, a, b] → s.swapIf [c] a b = s.applyMatrix [c, a, b] fredkinMatrix) ∧
    (∀ a b, qubits = [a, b] →
      (∀ i < count s.width, (s.swap a b).amplitude i =
        s.amplitude (withBit (withBit i a (i.testBit b)) b (i.testBit a))) ∧
      (s.swap a b).swap a b = s) ∧
    (∀ name ∈ Catalog.unitaryNames, (Catalog.afterStem? "c" name).isSome →
      name = "cu" ∨ ∃ n base arity count, Controlled name n base arity count) ∧
    (∀ name n base arity count, Controlled name n base arity count →
      Catalog.find? name = some (.gate (n + arity) count) ∧
      Catalog.find? base = some (.gate arity count) ∧
      ∀ controls targets params, qubits = controls ++ targets → controls.length = n.toNat →
        targets.length = arity.toNat → params.length = count.toNat →
        ∃ controlled gate : Operation R,
          named name (controls ++ targets) params none = .ok controlled ∧
          named base targets params none = .ok gate ∧
          Controls controls s (gate.apply s) (controlled.apply s)) ∧
    ∀ c t, qubits = [c, t] → ∀ theta phi lambda gamma : Float,
      ∃ controlled gate : Operation R,
        named "cu" [c, t] [theta, phi, lambda, gamma] none = .ok controlled ∧
        named "u" [t] [theta, phi, lambda] none = .ok gate ∧
        ∀ i < count s.width, (controlled.apply s).amplitude i =
          if i.testBit c then
            Complex.polar 1 (Scalar.ofFloat gamma) * (gate.apply s).amplitude i
          else s.amplitude i := by
  have hpair {a b : Nat} (h : qubits = [a, b]) : a < s.width ∧ b < s.width ∧ a ≠ b := by
    subst h
    exact ⟨hlt a (by simp), hlt b (by simp), by simpa using hnodup⟩
  refine ⟨fun q _ => ⟨s.flipIf_eq_applyIf [] q, s.hadamard_eq_applyIf q⟩, ?_,
    fun c d t _ => s.flipIf_eq_applyIf [c, d] t, ?_, ?_, ?_, fun name => exists_controlled, ?_, ?_⟩
  · rintro c t h
    obtain ⟨-, -, hne⟩ := hpair h
    have htarget : t ∉ [c] := by simpa using hne.symm
    exact ⟨s.flipIf_eq_applyIf [c] t, s.negateIf_eq_applyIf htarget⟩
  · rintro a b h
    obtain ⟨ha, hb, hne⟩ := hpair h
    exact ⟨s.swap_eq_applyMatrix ha hb hne, s.iswap_eq_applyMatrix ha hb hne⟩
  · rintro c a b rfl
    exact s.swapIf_eq_applyMatrix (hlt a (by simp)) (hlt b (by simp)) hnodup
  · rintro a b h
    obtain ⟨ha, hb, -⟩ := hpair h
    exact ⟨fun i hi => s.amplitude_swap ha hb hi, s.swap_swap ha hb⟩
  · rintro name n base arity count h
    refine ⟨h.find?.1, h.find?.2, ?_⟩
    rintro controls targets params rfl hcontrols htargets hparams
    exact controls_named s h hcontrols htargets hparams hnodup hlt
  · rintro c t h
    exact amplitude_cu s (hpair h).2.2.symm

open Statevector in
/-- The matrix of a swap on the third and the first qubit of three. -/
theorem swap_third_and_first :
    [2, 0].Nodup ∧ (∀ q ∈ [2, 0], q < 3) ∧ ∀ i < 8,
      ((ofFn 3 fun i => ⟨i, 0⟩ : Statevector (Complex ℝ)).applyMatrix [2, 0] swapMatrix).amplitude i =
        ⟨([0, 4, 2, 6, 1, 5, 3, 7][i]?.getD 0 : ℕ), 0⟩ := by
  have hnodup : [2, 0].Nodup := by decide
  have hlt : ∀ q ∈ [2, 0], q < 3 := by decide
  obtain ⟨-, -, -, hmatrix, -, hswap, -⟩ :=
    specialised_eq_generic (ofFn 3 fun i => ⟨i, 0⟩ : Statevector (Complex ℝ)) hnodup hlt
  refine ⟨hnodup, hlt, fun i hi => ?_⟩
  have hindex : ∀ i < 8, withBit (withBit i 2 (i.testBit 0)) 0 (i.testBit 2) < count 3 ∧
      withBit (withBit i 2 (i.testBit 0)) 0 (i.testBit 2) = [0, 4, 2, 6, 1, 5, 3, 7][i]?.getD 0 := by
    decide
  obtain ⟨hexchanged, heq⟩ := hindex i hi
  rw [← (hmatrix 2 0 rfl).1, (hswap 2 0 rfl).1 i hi, amplitude_ofFn _ hexchanged, heq]

end QuantumRelay
