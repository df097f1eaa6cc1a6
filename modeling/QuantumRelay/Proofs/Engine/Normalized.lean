import QuantumRelay.Proofs.Engine.Executable
import QuantumRelay.Proofs.Statevector.Measurement
import QuantumRelay.Proofs.Statevector.Norm

/-!
# States stay normalised

The checks on an instruction with a matrix look at the shape of the matrix only. If all matrices of a
group are unitary, then the joint state has total one after every step of a shot
(`states_stay_normalised`), so a measurement scales what it keeps by what that really weighs. With another
matrix, accepted all the same, both fail (`halved_weights`). The width of the state is not bounded here;
its indices are machine words below 64 qubits (`accepted_runs`).
-/

namespace QuantumRelay

open BasisIndex

variable {σ : Type}

/-! ### Actions -/

namespace Action

variable [DrawSource σ] {own : Nat} {s s' : Shot σ ℝ} {a : Action ℝ} {x : Option Transfer}

theorem isometric_ofInstruction {i : Instruction} {ids : List String} {offset : Nat}
    (h : ofInstruction ids offset i = .ok a)
    (hm : ∀ rows, i.matrix = some rows → UnitaryMatrix (rows.map fun row => row.map .ofFloats))
    {operation : Operation ℝ} (ho : a.operation? = some operation) : operation.Isometric := by
  unfold ofInstruction at h
  dsimp only at h
  split at h
  case h_7 =>
    cases ofGate_cases h with
    | apply hop => exact Option.some.inj ho ▸ Operation.isometric_named hop hm
    | applyIf hqubits hop => exact Option.some.inj ho ▸ Operation.isometric_named hop hm
    | applyIfReceived hpeer hop => exact Option.some.inj ho ▸ Operation.isometric_named hop hm
    | loadReceived hpeer hqubits hop => exact Option.some.inj ho ▸ Operation.isometric_named hop hm
  all_goals
    obtain rfl := Except.ok.inj h
    cases ho

theorem Steps.total_eq (h : a.Steps own s x s') (hin : a.InRange own s)
    (hiso : ∀ operation, a.operation? = some operation → operation.Isometric)
    (hs : s.state.total = 1) : s'.state.total = 1 := by
  have happly {t : Statevector (Complex ℝ)} {operation : Operation ℝ}
      (hrange : operation.InRange t.width) (hkeeps : operation.Isometric) (ht : t.total = 1) :
      (operation.apply t).total = 1 :=
    (Operation.total_apply hrange.qubit_lt hrange.qubits_nodup hkeeps).trans ht
  have hmeasure (q : Nat) : (s.measure q).2.state.total = 1 := Statevector.total_measure s.source hs q
  have hreset {q : Nat} (hrange : (Operation.flipIf [] q : Operation ℝ).InRange s.state.width) :
      (s.reset q).state.total = 1 :=
    Statevector.total_reset s.source hs (hrange.qubit_lt q List.mem_cons_self)
  have hwidth (q : Nat) : (s.reset q).state.width = s.state.width := s.state.width_reset q s.source
  cases h with
  | apply operation => exact happly hin.2 (hiso operation rfl) hs
  | measure qubit clbit => exact hmeasure qubit
  | reset qubit => exact hreset hin.2
  | applyIf control operation =>
    split
    · exact happly hin.2.2 (hiso operation rfl) (hmeasure control)
    · exact hmeasure control
  | sendBit qubit peer => exact hmeasure qubit
  | receiveBit clbit htake => exact hs
  | applyIfReceived operation htake =>
    split
    · exact happly hin.2 (hiso operation rfl) hs
    · exact hs
  | loadReceived control operation htake =>
    obtain ⟨-, hcontrol, hoperation⟩ := hin
    split
    · have hloaded : ((Operation.flipIf [] control).apply (s.reset control).state).total = 1 :=
        happly ((hwidth control).symm ▸ hcontrol) trivial (hreset hcontrol)
      have hkept : ((Operation.flipIf [] control).apply (s.reset control).state).width =
          s.state.width := (Operation.width_apply _ _).trans (hwidth control)
      exact happly (hkept.symm ▸ hoperation) (hiso operation rfl) hloaded
    · show (s.reset control).state.total = 1
      exact hreset hcontrol
  | sendQubit qubit peer =>
    show ((Operation.swapIf [] qubit s.nextChannel).apply s.state).total = 1
    exact happly hin.2 trivial hs
  | @receiveQubit channel channels qubit peer htake =>
    obtain ⟨-, hqubit, hchannel⟩ := hin
    have hrange : (Operation.swapIf [] qubit channel : Operation ℝ).InRange
        (s.reset qubit).state.width := by
      rw [hwidth]
      exact hchannel _ _ htake
    show ((Operation.swapIf [] qubit channel).apply (s.reset qubit).state).total = 1
    exact happly hrange trivial (hreset hqubit)

end Action

/-! ### Shots -/

/-- All matrices in a group are unitary. -/
def UnitaryMatrices (group : List RunRequest) : Prop :=
  ∀ r ∈ group, ∀ i ∈ r.instructions, ∀ rows, i.matrix = some rows →
    UnitaryMatrix (rows.map fun row => row.map .ofFloats)

section shots

variable [DrawSource σ] {maxQubits : Nat} {group : List RunRequest} {l : Layout ℝ}

theorem History.total_eq {source : σ} {deeds : List (Deed ℝ)} {work : List (List (Task ℝ))}
    {s : Shot σ ℝ} (h : History l source deeds work s)
    (hl : Layout.ofGroup maxQubits group = .ok l) (hm : UnitaryMatrices group) : s.state.total = 1 := by
  induction h with
  | start => exact Statevector.total_zero l.width
  | step h hwork hstep ih =>
    obtain ⟨m, hmember, hmem⟩ := h.mem_of_work hwork
    obtain ⟨r, hr⟩ := Layout.exists_carries hl hmember
    have ht := hmem _ List.mem_cons_self
    have hi := hr.instructions_eq ▸ List.mem_map_of_mem (f := Task.instruction) ht
    refine hstep.total_eq (h.inRange hl hwork) (fun operation ho => ?_) ih
    exact Action.isometric_ofInstruction (hr.action_eq _ ht)
      (hm r (List.mem_of_getElem? hr.request) _ hi) ho

open Engine in
/-- If all matrices of a group are unitary, then the joint state has total one in every state that a shot
comes to. So what is left of one when the probability of reading one is taken away is the weight of the
amplitudes that are kept if a qubit reads zero. -/
theorem states_stay_normalised (hl : Layout.ofGroup maxQubits group = .ok l)
    (hm : UnitaryMatrices group) (source : σ) :
    (∃ deeds, History l source deeds (settle (l.members.map (·.tasks)) (.start l source)).1
      (settle (l.members.map (·.tasks)) (.start l source)).2) ∧
    ∀ deeds work s, History l source deeds work s → s.state.total = 1 ∧
      ∀ q, s.state.probabilityOne q = s.state.weight q true ∧
        1 - s.state.probabilityOne q = s.state.weight q false := by
  refine ⟨History.settle l source, fun deeds work s h => ⟨h.total_eq hl hm, fun q => ?_⟩⟩
  have hone := s.state.probabilityOne_eq_weight q
  have hadd := s.state.weight_false_add_weight_true q
  rw [h.total_eq hl hm] at hadd
  exact ⟨hone, by linarith⟩

end shots

/-! ### Matrices that invert and scale -/

def scalingMatrix (x : Float) : Matrix := [[⟨0, 0⟩, ⟨x, 0⟩], [⟨x, 0⟩, ⟨0, 0⟩]]

def scaling (x : Float) : Instruction :=
  { name := "unitary", qubits := [0], matrix := some (scalingMatrix x) }

def measuring : Instruction := { name := "measure", qubits := [0], clbits := [0] }

def scalingRun (x : Float) : RunRequest :=
  { id := "a", config := {}, execType := .offloading, numQubits := 1, numClbits := 1
    instructions := [scaling x, measuring] }

theorem realOfFloat_zero : realOfFloat 0 = 0 := by
  have h : Binary.ofFloat 0 = ⟨0, -1074, false⟩ := rfl
  rw [realOfFloat, h]
  simp

theorem realOfFloat_half : realOfFloat 0.5 = 1 / 2 := by
  have h : Binary.ofFloat 0.5 = ⟨4503599627370496, -53, true⟩ := rfl
  have hsign : Binary.isNegative 0.5 = false := rfl
  rw [realOfFloat, h, hsign]
  norm_num

theorem realOfFloat_one : realOfFloat 1 = 1 := by
  have h : Binary.ofFloat 1 = ⟨4503599627370496, -52, true⟩ := rfl
  have hsign : Binary.isNegative 1 = false := rfl
  rw [realOfFloat, h, hsign]
  norm_num

theorem validate_scaling (x : Float) : (scaling x).validate 1 1 "a" = .ok .ofMatrix := by
  have hqubits : (scalingMatrix x).qubits = .ok 1 := by
    have hside : (scalingMatrix x).length = 2 := rfl
    have hlog : Nat.log2 2 = 1 := by decide
    rw [Matrix.qubits, hside, isPowerOfTwo, hlog]
    rfl
  exact Instruction.validate_eq_ok.2 ⟨rfl, ⟨1, (Spec.qubitArity_ofMatrix rfl).2
    ⟨scalingMatrix x, 1, rfl, hqubits, by decide, rfl⟩, rfl⟩, rfl, rfl, rfl⟩

theorem ofInstruction_scaling (x : Float) : Action.ofInstruction ["a"] 0 (scaling x) =
    .ok (.apply (.matrix [0] ((scalingMatrix x).map fun row => row.map (Complex.ofFloats (R := ℝ))))) := by
  have hremote : Catalog.afterStem? Catalog.remoteStem "unitary" = none := by decide
  have hconditional : Catalog.afterStem? Catalog.conditionalStem "unitary" = none := by decide
  show Action.ofAnyGate (scaling x) none [0] = _
  simp only [Action.ofAnyGate, Action.ofGate, scaling, hremote, hconditional]
  rfl

theorem exists_scaled (x : Float) : ∃ l : Layout ℝ, Layout.ofGroup 24 [scalingRun x] = .ok l ∧
    ∃ deeds work s, History l (⟨[]⟩ : GivenDraws) deeds work s ∧ s.state.width = 1 ∧
      s.state.amplitude 0 = 0 ∧ s.state.amplitude 1 = ⟨realOfFloat x, 0⟩ := by
  let rows : List (List (Complex ℝ)) := (scalingMatrix x).map fun row => row.map .ofFloats
  let tasks : List (Task ℝ) := [⟨scaling x, .apply (.matrix [0] rows)⟩, ⟨measuring, .measure 0 0⟩]
  have hrunnable : ∀ r ∈ [scalingRun x], Layout.Runnable ["a"] r := by
    simp only [List.mem_singleton, forall_eq]
    intro i hi
    obtain rfl | rfl : i = scaling x ∨ i = measuring := by simpa [scalingRun] using hi
    · exact ⟨⟨_, validate_scaling x⟩, fun p hp => by cases hp⟩
    · exact ⟨⟨.nonUnitary 1 1, rfl⟩, fun p hp => by cases hp⟩
  have hplace : Layout.place ["a"] 0 [scalingRun x] = .ok [⟨"a", 1, tasks⟩] := by
    simp only [Layout.place, scalingRun, Layout.tasksOf, ofInstruction_scaling]
    rfl
  have hl : Layout.ofGroup 24 [scalingRun x] = .ok (⟨[⟨"a", 1, tasks⟩], 1, 0⟩ : Layout ℝ) :=
    Layout.ofGroup_eq_ok.2 ⟨List.nodup_singleton "a", hrunnable, Nat.le_of_ble_eq_true rfl, _, hplace, rfl⟩
  have hstep : History (⟨[⟨"a", 1, tasks⟩], 1, 0⟩ : Layout ℝ) (⟨[]⟩ : GivenDraws) _ _ _ :=
    .step .start (show _[0]? = _ from rfl) (.apply (.matrix [0] rows))
  have hamplitude (i : Nat) (hi : i < 2) :
      ((Statevector.zero 1 : Statevector (Complex ℝ)).applyMatrix [0] rows).amplitude i =
        Statevector.entryAt rows (bitsAt i [0]) 0 := by
    have hindices : withBit i 0 false = 0 ∧ withBit i 0 true = 1 := by
      interval_cases i <;> exact ⟨rfl, rfl⟩
    have hzero : (Statevector.zero 1 : Statevector (Complex ℝ)).amplitude 0 = 1 :=
      Statevector.amplitude_ofFn _ Nat.two_pos
    refine (Statevector.amplitude_applyMatrix _ rfl hi).trans ((Finset.sum_range_succ _ 1).trans ?_)
    rw [Finset.sum_range_one, replaceBits_singleton, replaceBits_singleton, Nat.zero_testBit,
      Nat.testBit_one_zero, hindices.1, hindices.2, hzero, Statevector.amplitude_zero 1 one_ne_zero,
      mul_one, mul_zero, add_zero]
  refine ⟨_, hl, _, _, _, hstep, rfl, (hamplitude 0 (by decide)).trans ?_,
    (hamplitude 1 (by decide)).trans ?_⟩
  · exact Complex.ext realOfFloat_zero realOfFloat_zero
  · exact Complex.ext rfl realOfFloat_zero

/-- A matrix that halves the amplitudes is accepted. Then the total is a quarter, and to read zero, which
has no weight at all, is taken to have a probability of three quarters. -/
theorem halved_weights : ∃ l : Layout ℝ, Layout.ofGroup 24 [scalingRun 0.5] = .ok l ∧
    ∃ deeds work s, History l (⟨[]⟩ : GivenDraws) deeds work s ∧ s.state.total = 1 / 4 ∧
      s.state.weight 0 false = 0 ∧ 1 - s.state.probabilityOne 0 = 3 / 4 := by
  obtain ⟨l, hl, deeds, work, s, h, hwidth, hzero, hone⟩ := exists_scaled 0.5
  have htotal : s.state.total = 1 / 4 := by
    rw [Statevector.total, hwidth]
    refine (Finset.sum_range_succ _ 1).trans ?_
    rw [Finset.sum_range_one, hzero, hone, realOfFloat_half]
    norm_num [Complex.normSq]
  have hcertain : s.state.Certain 0 true := by
    intro i hi hbit
    rw [hwidth] at hi
    have hi : i < 2 := hi
    interval_cases i
    · exact hzero
    · exact absurd rfl hbit
  have hp : s.state.probabilityOne 0 = 1 / 4 := by
    rw [Statevector.probabilityOne_eq_weight, hcertain.weight_eq, htotal]
  exact ⟨l, hl, deeds, work, s, h, htotal, hcertain.weight_not, by rw [hp]; norm_num⟩

theorem unitaryMatrices_scalingRun : UnitaryMatrices [scalingRun 1] := by
  simp only [UnitaryMatrices, List.mem_singleton, forall_eq]
  intro i hi rows hrows
  obtain rfl | rfl : i = scaling 1 ∨ i = measuring := by simpa [scalingRun] using hi
  · obtain rfl := Option.some.inj hrows
    have hzero : (Complex.ofFloats ⟨0, 0⟩ : Complex ℝ) = 0 :=
      Complex.ext realOfFloat_zero realOfFloat_zero
    have hone : (Complex.ofFloats ⟨1, 0⟩ : Complex ℝ) = 1 :=
      Complex.ext realOfFloat_one realOfFloat_zero
    have hmatrix : (scalingMatrix 1).map (fun row => row.map Complex.ofFloats) =
        ([[0, 1], [1, 0]] : List (List (Complex ℝ))) := by
      simp only [scalingMatrix, List.map_cons, List.map_nil, hzero, hone]
    rw [hmatrix]
    intro j hj k hk
    have hj : j < 2 := hj
    have hk : k < 2 := hk
    interval_cases j <;> interval_cases k <;>
      simp [Statevector.entryAt, Finset.sum_range_succ]
  · cases hrows

/-- With the factor one the matrix is unitary, and the state stays normalised. -/
theorem inverted_normalised : UnitaryMatrices [scalingRun 1] ∧
    ∃ l : Layout ℝ, Layout.ofGroup 24 [scalingRun 1] = .ok l ∧
      ∃ deeds work s, History l (⟨[]⟩ : GivenDraws) deeds work s ∧ s.state.amplitude 1 = ⟨1, 0⟩ ∧
        s.state.total = 1 ∧ 1 - s.state.probabilityOne 0 = s.state.weight 0 false := by
  obtain ⟨l, hl, deeds, work, s, h, -, -, hone⟩ := exists_scaled 1
  rw [realOfFloat_one] at hone
  obtain ⟨htotal, hweights⟩ :=
    (states_stay_normalised hl unitaryMatrices_scalingRun (⟨[]⟩ : GivenDraws)).2 deeds work s h
  exact ⟨unitaryMatrices_scalingRun, l, hl, deeds, work, s, h, hone, htotal, (hweights 0).2⟩

end QuantumRelay
