import QuantumRelay.Proofs.Statevector.Exact
import QuantumRelay.Proofs.Statevector.Sweep

/-!
# Steps on some qubits

A step is `Confined` to some qubits if the new amplitude at an index is made from old ones at indices
that differ from it at these qubits only, in the same way whatever the other bits are. Every operation
is confined to the qubits that it names, and so are measurements and resets, whose outcomes and weights
are the same for all indices.

A qubit is `Clear` if it reads zero for certain. It stays so in steps that are confined to other qubits
(`Confined.clear`), and a swap with it moves the state of another qubit there (`moves_swap`).
-/

namespace QuantumRelay

open BasisIndex

variable {A R σ : Type} {B C : Set Nat} {q : Nat}

/-! ### Formulas for amplitudes -/

/-- The new amplitude at an index is made from old ones that differ from it on `B` only, in the same
way for all indices with the same bits there. -/
def LocalTo (B : Set Nat) (f : (Nat → A) → Nat → A) : Prop :=
  ∀ ⦃a a' : Nat → A⦄ ⦃i i' : Nat⦄, SameOn B i i' →
    (∀ j j', Twins B i i' j j' → a j = a' j') → f a i = f a' i'

/-- No new amplitude of a state of some width is made from past the last one, if the state has all the
qubits of `B`. -/
theorem LocalTo.congr_of_lt {f : (Nat → A) → Nat → A} (hf : LocalTo B f) {width : Nat}
    (hB : ∀ q ∈ B, q < width) {a a' : Nat → A} (h : ∀ j, j < count width → a j = a' j) {i : Nat}
    (hi : i < count width) : f a i = f a' i := by
  apply hf (fun _ _ => rfl)
  intro j j' htwins
  obtain rfl : j = j' := by
    apply Nat.eq_of_testBit_eq
    intro q
    by_cases hq : q ∈ B
    · exact htwins.on q hq
    · rw [← htwins.left q hq, htwins.right q hq]
  exact h j (htwins.left.lt_count hB hi)

/-- A step that acts on the qubits of `B` only and makes nothing of nothing. -/
structure Confined [Zero A] (B : Set Nat) (s t : Statevector A) : Prop where
  width_eq : t.width = s.width
  /-- The same old amplitudes, up to the bits elsewhere, give the same new one. -/
  determined : ∀ i i', i < count s.width → i' < count s.width → SameOn B i i' →
    (∀ j j', Twins B i i' j j' → s.amplitude j = s.amplitude j') → t.amplitude i = t.amplitude i'
  zero : ∀ i, i < count s.width → (∀ j, SameOff B i j → s.amplitude j = 0) → t.amplitude i = 0

/-- The qubit reads zero for certain. -/
def Statevector.Clear [Zero A] (s : Statevector A) (q : Nat) : Prop :=
  ∀ i, i.testBit q = true → s.amplitude i = 0

namespace Statevector

theorem amplitude_of_le [Zero A] (s : Statevector A) {i : Nat} (h : count s.width ≤ i) :
    s.amplitude i = 0 := by
  rw [amplitude, Array.getElem?_eq_none (by rw [s.size_eq]; exact h), Option.getD_none]

theorem amplitude_zero [Zero A] [One A] (width : Nat) {i : Nat} (h : i ≠ 0) :
    (zero width : Statevector A).amplitude i = 0 := by
  by_cases hi : i < count width
  · rw [zero, amplitude_ofFn _ hi, if_neg h]
  · exact amplitude_of_le _ (Nat.le_of_not_lt hi)

theorem clear_zero [Zero A] [One A] (width q : Nat) : (zero width : Statevector A).Clear q := by
  intro i hi
  apply amplitude_zero
  rintro rfl
  simp at hi

end Statevector

namespace Confined

variable [Zero A] {s t u : Statevector A}

theorem refl (B : Set Nat) (s : Statevector A) : Confined B s s where
  width_eq := rfl
  determined _ _ _ _ hon h := h _ _ (.refl hon)
  zero _ _ h := h _ fun _ _ => rfl

theorem gather {f : (Nat → A) → Nat → A} (hf : LocalTo B f) (h0 : ∀ i, f (fun _ => 0) i = 0) :
    Confined B s (s.gather f) where
  width_eq := rfl
  determined i i' hi hi' hon h := by
    rw [Statevector.amplitude_gather _ _ hi, Statevector.amplitude_gather _ _ hi']
    exact hf hon h
  zero i hi h := by
    rw [Statevector.amplitude_gather _ _ hi, ← h0 i]
    exact hf (fun _ _ => rfl) fun j j' htwins => h j htwins.left

theorem trans (h : Confined B s t) (h' : Confined B t u) (hB : ∀ q ∈ B, q < s.width) :
    Confined B s u where
  width_eq := h'.width_eq.trans h.width_eq
  determined i i' hi hi' hon hsame := by
    have hw := h.width_eq
    refine h'.determined i i' (hw ▸ hi) (hw ▸ hi') hon fun j j' htwins => ?_
    refine h.determined j j' (htwins.left.lt_count hB hi) (htwins.right.lt_count hB hi') htwins.on ?_
    intro k k' hk
    exact hsame k k' ⟨fun q hq => (htwins.left q hq).trans (hk.left q hq),
      fun q hq => (htwins.right q hq).trans (hk.right q hq), hk.on⟩
  zero i hi hnone := by
    refine h'.zero i (h.width_eq ▸ hi) fun j hj => ?_
    refine h.zero j (hj.lt_count hB hi) fun k hk => ?_
    exact hnone k fun q hq => (hj q hq).trans (hk q hq)

theorem mono (h : Confined B s t) (hBC : B ⊆ C) : Confined C s t where
  width_eq := h.width_eq
  determined i i' hi hi' hon hsame := by
    have hmono {j k : Nat} (hj : SameOff B j k) : SameOff C j k := fun q hq => hj q fun hB => hq (hBC hB)
    refine h.determined i i' hi hi' (fun q hq => hon q (hBC hq)) fun j j' htwins => ?_
    refine hsame j j' ⟨hmono htwins.left, hmono htwins.right, fun q hq => ?_⟩
    by_cases hB : q ∈ B
    · exact htwins.on q hB
    · rw [← htwins.left q hB, hon q hq, htwins.right q hB]
  zero i hi hnone := h.zero i hi fun j hj => hnone j fun q hq => hj q fun hB => hq (hBC hB)

theorem clear (h : Confined B s t) (hq : q ∉ B) (hclear : s.Clear q) : t.Clear q := by
  intro i hi
  by_cases hlt : i < count s.width
  · exact h.zero i hlt fun j hj => hclear j (by rw [← hj q hq, hi])
  · exact t.amplitude_of_le (h.width_eq ▸ Nat.le_of_not_lt hlt)

end Confined

/-! ### Operations -/

namespace Operation

def qubits : Operation R → List Nat
  | flipIf controls target => target :: controls
  | swapIf controls left right => left :: right :: controls
  | negateIf qubits => qubits
  | hadamard target => [target]
  | iswap left right => [left, right]
  | applyIf controls target _ => target :: controls
  | matrix qubits _ => qubits

/-- Whether two qubits differ in an index of a state of some width that has both. -/
def differ (width left right i : Nat) : Bool :=
  left < width && right < width && i.testBit left ≠ i.testBit right

variable [Scalar R]

/-- The new amplitude at an index of a state of some width, in terms of the old ones. -/
def entry (width : Nat) : Operation R → (Nat → Complex R) → Nat → Complex R
  | flipIf controls target => fun a i =>
    if controls.all (withBit i target false).testBit then a (flip i target) else a i
  | swapIf controls left right => fun a i =>
    if differ width left right i &&
        controls.all (withBit (withBit i left true) right false).testBit then
      a (flip (flip i left) right)
    else a i
  | negateIf qubits => fun a i => if qubits.all i.testBit then -a i else a i
  | hadamard target => fun a i =>
    let zero := a (withBit i target false)
    let one := a (withBit i target true)
    (if i.testBit target then zero - one else zero + one).scale Scalar.rootHalf
  | iswap left right => fun a i =>
    if differ width left right i then Complex.i * a (flip (flip i left) right) else a i
  | applyIf controls target g => fun a i =>
    let low := withBit i target false
    let high := withBit i target true
    if controls.all low.testBit then
      if i.testBit target then g.m10 * a low + g.m11 * a high
      else g.m00 * a low + g.m01 * a high
    else a i
  | matrix qubits m => fun a i =>
    if hasSide qubits.length m then
      Statevector.rowSum (m[bitsAt i qubits]?.getD []) fun k => a (replaceBits i k qubits)
    else a i

theorem apply_eq (operation : Operation R) (s : Statevector (Complex R)) :
    operation.apply s = s.gather (operation.entry s.width) := by
  cases operation with
  | flipIf controls target => exact s.flipIf_eq controls target
  | swapIf controls left right => exact s.swapIf_eq controls left right
  | negateIf qubits => exact s.negateIf_eq qubits
  | hadamard target => exact s.hadamard_eq target
  | iswap left right => exact s.iswap_eq left right
  | applyIf controls target g => exact s.applyIf_eq controls target g
  | matrix qubits m =>
    by_cases hm : hasSide qubits.length m = true
    · simp only [apply, entry, hm, if_true]
      exact s.applyMatrix_eq hm
    · simp only [apply, entry, hm]
      exact s.gather_self.symm

@[simp] theorem width_apply (operation : Operation R) (s : Statevector (Complex R)) :
    (operation.apply s).width = s.width := by
  rw [apply_eq, Statevector.width_gather]

theorem localTo_entry {operation : Operation R} (h : ∀ q ∈ operation.qubits, q ∈ B) (width : Nat) :
    LocalTo B (operation.entry width) := by
  intro a a' i i' hon hsame
  have htwins : Twins B i i' i i' := .refl hon
  have hdiffer {left right : Nat} (hleft : left ∈ B) (hright : right ∈ B) :
      differ width left right i = differ width left right i' := by
    rw [differ, differ, hon left hleft, hon right hright]
  cases operation with
  | flipIf controls target =>
    obtain ⟨htarget, hcontrols⟩ := List.forall_mem_cons.1 h
    dsimp only [entry]
    rw [all_testBit_congr fun q hq => (htwins.withBit htarget false).on q (hcontrols q hq),
      hsame _ _ htwins, hsame _ _ (htwins.flip htarget)]
  | swapIf controls left right =>
    obtain ⟨hleft, h⟩ := List.forall_mem_cons.1 h
    obtain ⟨hright, hcontrols⟩ := List.forall_mem_cons.1 h
    dsimp only [entry]
    rw [hdiffer hleft hright,
      all_testBit_congr fun q hq =>
        ((htwins.withBit hleft true).withBit hright false).on q (hcontrols q hq),
      hsame _ _ htwins, hsame _ _ ((htwins.flip hleft).flip hright)]
  | negateIf targets =>
    have htargets : ∀ q ∈ targets, q ∈ B := h
    dsimp only [entry]
    rw [all_testBit_congr fun q hq => hon q (htargets q hq), hsame _ _ htwins]
  | hadamard target =>
    have htarget : target ∈ B := h target List.mem_cons_self
    dsimp only [entry]
    rw [hon target htarget, hsame _ _ (htwins.withBit htarget false),
      hsame _ _ (htwins.withBit htarget true)]
  | iswap left right =>
    obtain ⟨hleft, h⟩ := List.forall_mem_cons.1 h
    have hright : right ∈ B := h right List.mem_cons_self
    dsimp only [entry]
    rw [hdiffer hleft hright, hsame _ _ htwins, hsame _ _ ((htwins.flip hleft).flip hright)]
  | applyIf controls target g =>
    obtain ⟨htarget, hcontrols⟩ := List.forall_mem_cons.1 h
    have hlow := htwins.withBit htarget false
    dsimp only [entry]
    rw [all_testBit_congr fun q hq => hlow.on q (hcontrols q hq), hon target htarget,
      hsame _ _ htwins, hsame _ _ hlow, hsame _ _ (htwins.withBit htarget true)]
  | matrix targets m =>
    have hrow : bitsAt i targets = bitsAt i' targets := bitsAt_congr fun q hq => hon q (h q hq)
    have hentries : (fun k => a (replaceBits i k targets)) =
        fun k => a' (replaceBits i' k targets) := by
      funext k
      exact hsame _ _ (htwins.replaceBits h k)
    dsimp only [entry]
    rw [hrow, hentries, hsame _ _ htwins]

end Operation

namespace Statevector

theorem reset_fst [Scalar R] [DrawSource σ] (s : Statevector (Complex R)) (qubit : Nat) (source : σ) :
    (s.reset qubit source).1 =
      if (s.measure qubit source).1 then (s.measure qubit source).2.1.flipIf [] qubit
      else (s.measure qubit source).2.1 := rfl

@[simp] theorem width_reset [Scalar R] [DrawSource σ] (s : Statevector (Complex R)) (qubit : Nat)
    (source : σ) : (s.reset qubit source).1.width = s.width := by
  rw [reset_fst]
  split <;> rfl

section exact

variable [ExactScalar R] (s : Statevector (Complex R)) {left right qubit : Nat}

theorem entry_zero (operation : Operation R) (width i : Nat) :
    operation.entry width (fun _ => 0) i = 0 := by
  cases operation <;> simp [Operation.entry, rowSum]

theorem confined_operation {operation : Operation R} (h : ∀ q ∈ operation.qubits, q ∈ B) :
    Confined B s (operation.apply s) := by
  rw [Operation.apply_eq]
  exact .gather (Operation.localTo_entry h s.width) (entry_zero operation s.width)

theorem confined_flip (hqubit : qubit ∈ B) : Confined B s (s.flipIf [] qubit) := by
  have hqubits : ∀ q ∈ (Operation.flipIf [] qubit : Operation R).qubits, q ∈ B := by
    simp [Operation.qubits, hqubit]
  exact s.confined_operation hqubits

theorem confined_swap (hleft : left ∈ B) (hright : right ∈ B) : Confined B s (s.swap left right) := by
  have hqubits : ∀ q ∈ (Operation.swapIf [] left right : Operation R).qubits, q ∈ B := by
    simp [Operation.qubits, hleft, hright]
  exact s.confined_operation hqubits

/-! ### Measurements -/

theorem confined_collapse (hqubit : qubit ∈ B) (outcome : Bool) (weight : R) :
    Confined B s (s.collapse qubit outcome weight) := by
  unfold collapse
  refine .gather (fun a a' i i' hon h => ?_) fun i => ?_
  · rw [hon qubit hqubit, h _ _ (.refl hon)]
  · simp

variable [DrawSource σ] (source : σ)

theorem confined_measure (hqubit : qubit ∈ B) : Confined B s (s.measure qubit source).2.1 :=
  s.confined_collapse hqubit _ _

theorem confined_reset (hqubit : qubit ∈ B) (hB : ∀ q ∈ B, q < s.width) :
    Confined B s (s.reset qubit source).1 := by
  have hmeasure := s.confined_measure source hqubit
  rw [reset_fst]
  split
  · exact hmeasure.trans (confined_flip _ hqubit) hB
  · exact hmeasure

theorem amplitude_measure_of_ne {i : Nat} (h : i.testBit qubit ≠ (s.measure qubit source).1) :
    (s.measure qubit source).2.1.amplitude i = 0 := by
  by_cases hi : i < count s.width
  · exact (amplitude_gather _ _ hi).trans (if_neg h)
  · exact amplitude_of_le _ (Nat.le_of_not_lt hi)

/-- A qubit that has been reset reads zero. -/
theorem clear_reset : (s.reset qubit source).1.Clear qubit := by
  intro i hi
  rw [reset_fst]
  split
  · next hone =>
    by_cases hlt : i < count s.width
    · rw [flipIf_eq]
      refine (amplitude_gather (s.measure qubit source).2.1 _ hlt).trans ?_
      rw [List.all_nil, if_pos rfl]
      apply amplitude_measure_of_ne
      rw [testBit_flip, hi, hone]
      simp
    · exact amplitude_of_le _ (Nat.le_of_not_lt hlt)
  · next hzero =>
    apply amplitude_measure_of_ne
    rw [hi]
    exact fun h => hzero h.symm

end exact

/-! ### Swaps -/

/-- The state of a qubit goes to a clear one, and it is clear itself then. -/
structure Moves [Zero A] (source target : Nat) (s t : Statevector A) : Prop where
  before : s.Clear target
  after : t.Clear source
  /-- The amplitudes are those before, with the bit of the target where that of the source was. -/
  amplitude : ∀ i, i < count s.width → i.testBit source = false →
    t.amplitude i = s.amplitude (withBit (withBit i source (i.testBit target)) target false)

theorem amplitude_swapIf [Zero A] (s : Statevector A) {controls : List Nat} {left right i : Nat}
    (hleft : left < s.width) (hright : right < s.width) (hnotLeft : left ∉ controls)
    (hnotRight : right ∉ controls) (hi : i < count s.width) :
    (s.swapIf controls left right).amplitude i =
      if controls.all i.testBit then s.amplitude (exchange i left right) else s.amplitude i := by
  have hcontrols : controls.all (withBit (withBit i left true) right false).testBit =
      controls.all i.testBit := by
    refine all_testBit_congr fun q hq => ?_
    rw [testBit_withBit, if_neg fun heq : right = q => hnotRight (heq ▸ hq), testBit_withBit,
      if_neg fun heq : left = q => hnotLeft (heq ▸ hq)]
  rw [swapIf_eq, amplitude_gather _ _ hi, hcontrols]
  by_cases h : i.testBit left = i.testBit right
  · simp [h, exchange_of_eq h]
  · simp [h, hleft, hright, exchange_of_ne h]

theorem amplitude_swap [Zero A] (s : Statevector A) {left right i : Nat} (hleft : left < s.width)
    (hright : right < s.width) (hi : i < count s.width) :
    (s.swap left right).amplitude i = s.amplitude (exchange i left right) :=
  (s.amplitude_swapIf hleft hright List.not_mem_nil List.not_mem_nil hi).trans (if_pos rfl)

theorem swap_comm [Zero A] (s : Statevector A) (left right : Nat) :
    s.swap left right = s.swap right left := by
  rw [swap, swap, swapIf_eq, swapIf_eq]
  refine congrArg s.gather ?_
  funext a i
  have hdiffer : decide (i.testBit left ≠ i.testBit right) = decide (i.testBit right ≠ i.testBit left) :=
    decide_eq_decide.2 ne_comm
  rw [hdiffer, flip_comm i left right, Bool.and_comm (decide (left < s.width))]
  rfl

/-- A swap with a clear qubit moves the state of the other one there. -/
theorem moves_swap [Zero A] (s : Statevector A) {source target : Nat} (hsource : source < s.width)
    (htarget : target < s.width) (hclear : s.Clear target) :
    Moves source target s (s.swap source target) where
  before := hclear
  after i hi := by
    by_cases hlt : i < count s.width
    · rw [amplitude_swap s hsource htarget hlt]
      exact hclear _ (by rw [testBit_exchange, if_pos rfl, hi])
    · exact amplitude_of_le _ (Nat.le_of_not_lt hlt)
  amplitude i hi hzero := by rw [amplitude_swap s hsource htarget hi, exchange, hzero]

end Statevector

end QuantumRelay
