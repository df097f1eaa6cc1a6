import QuantumRelay.Proofs.Statevector.Weight

/-!
# Measurements and resets

A measurement of a normalised state keeps the amplitudes at which the qubit reads the outcome, all scaled
by one factor, and the outcome has some weight, so that there is such a factor. It leaves the state
normalised and the qubit `Certain`, and measuring a certain qubit changes nothing. A reset moves what is
left to the indices at which the qubit is zero.
-/

namespace QuantumRelay

open BasisIndex Finset

namespace Statevector

variable {s t : Statevector (Complex ℝ)} {q : Nat} {b : Bool} {d : ℝ}

/-! ### Certain qubits -/

/-- A qubit reads `b` for certain. -/
def Certain (s : Statevector (Complex ℝ)) (q : Nat) (b : Bool) : Prop :=
  ∀ i < count s.width, i.testBit q ≠ b → s.amplitude i = 0

theorem Certain.weight_not (h : s.Certain q b) : s.weight q (!b) = 0 := by
  refine sum_eq_zero fun i hi => ?_
  obtain ⟨hlt, hbit⟩ := mem_filter.1 hi
  rw [h i (mem_range.1 hlt) (by simp [hbit]), Complex.normSq_zero]

theorem Certain.weight_eq (h : s.Certain q b) : s.weight q b = s.total := by
  have hadd := s.weight_false_add_weight_true q
  have hnot := h.weight_not
  cases b with
  | false => rwa [show s.weight q true = 0 from hnot, add_zero] at hadd
  | true => rwa [show s.weight q false = 0 from hnot, zero_add] at hadd

theorem Certain.probabilityOne_eq (h : s.Certain q b) (hs : s.total = 1) :
    s.probabilityOne q = if b then 1 else 0 := by
  rw [probabilityOne_eq_weight]
  cases b with
  | false => exact h.weight_not
  | true => exact h.weight_eq.trans hs

/-! ### Outcomes -/

/-- The weight that a measurement takes the outcome to have. -/
noncomputable def kept (s : Statevector (Complex ℝ)) (q : Nat) (d : ℝ) : ℝ :=
  if (s.measureBy q d).1 then s.probabilityOne q else 1 - s.probabilityOne q

theorem measureBy_fst : (s.measureBy q d).1 = decide (d < s.probabilityOne q) := rfl

theorem measureBy_snd :
    (s.measureBy q d).2 = s.collapse q (s.measureBy q d).1 (s.kept q d) := rfl

theorem kept_eq_weight (hs : s.total = 1) : s.kept q d = s.weight q (s.measureBy q d).1 := by
  have hadd := s.weight_false_add_weight_true q
  rw [kept, probabilityOne_eq_weight]
  cases (s.measureBy q d).1 with
  | false =>
    rw [if_neg Bool.false_ne_true]
    linarith
  | true => rw [if_pos rfl]

theorem kept_pos (h0 : 0 ≤ d) (h1 : d < 1) : 0 < s.kept q d := by
  rw [kept, measureBy_fst]
  by_cases h : d < s.probabilityOne q
  · rw [if_pos (decide_eq_true h)]
    exact h0.trans_lt h
  · rw [if_neg (by simpa using h)]
    linarith

/-- The common factor of the amplitudes that a measurement keeps. -/
noncomputable def factor (s : Statevector (Complex ℝ)) (q : Nat) (d : ℝ) : ℝ := 1 / √(s.kept q d)

theorem factor_pos (h0 : 0 ≤ d) (h1 : d < 1) : 0 < s.factor q d :=
  one_div_pos.2 (Real.sqrt_pos.2 (kept_pos h0 h1))

theorem factor_mul_self (h0 : 0 ≤ d) (h1 : d < 1) : s.factor q d * s.factor q d * s.kept q d = 1 := by
  have hpos : 0 < s.kept q d := kept_pos h0 h1
  rw [factor, div_mul_div_comm, one_mul, Real.mul_self_sqrt hpos.le, one_div_mul_cancel hpos.ne']

/-! ### Measurements -/

theorem amplitude_measureBy (h0 : 0 ≤ d) (h1 : d < 1) {i : Nat} (hi : i < count s.width) :
    (s.measureBy q d).2.amplitude i =
      if i.testBit q = (s.measureBy q d).1 then (s.amplitude i).scale (s.factor q d) else 0 := by
  have hless : Scalar.less 0 (s.kept q d) = true := decide_eq_true (kept_pos h0 h1)
  rw [measureBy_snd]
  refine (amplitude_gather _ _ hi).trans ?_
  rw [hless]
  rfl

theorem certain_measureBy (h0 : 0 ≤ d) (h1 : d < 1) :
    (s.measureBy q d).2.Certain q (s.measureBy q d).1 := by
  intro i (hi : i < count s.width) hne
  rw [amplitude_measureBy h0 h1 hi, if_neg hne]

theorem total_measureBy (hs : s.total = 1) (h0 : 0 ≤ d) (h1 : d < 1) :
    (s.measureBy q d).2.total = 1 := by
  have hweight : (s.measureBy q d).2.weight q (s.measureBy q d).1 =
      s.weight q (s.measureBy q d).1 * (s.factor q d * s.factor q d) := by
    rw [weight, weight, sum_mul]
    refine sum_congr rfl fun i hi => ?_
    obtain ⟨hlt, hbit⟩ := mem_filter.1 hi
    rw [amplitude_measureBy h0 h1 (mem_range.1 hlt), if_pos hbit, Complex.normSq_scale]
  rw [← (certain_measureBy h0 h1).weight_eq, hweight, ← kept_eq_weight hs, mul_comm]
  exact factor_mul_self h0 h1

theorem Certain.measureBy_eq (h : s.Certain q b) (hs : s.total = 1) (h0 : 0 ≤ d) (h1 : d < 1) :
    s.measureBy q d = (b, s) := by
  have houtcome : (s.measureBy q d).1 = b := by
    rw [measureBy_fst, h.probabilityOne_eq hs]
    cases b with
    | false => simpa using h0
    | true => simpa using h1
  have hfactor : s.factor q d = 1 := by
    rw [factor, kept_eq_weight hs, houtcome, h.weight_eq, hs, Real.sqrt_one, div_one]
  refine Prod.ext houtcome (ext_amplitude rfl fun i (hi : i < count s.width) => ?_)
  rw [amplitude_measureBy h0 h1 hi, houtcome, hfactor, Complex.scale_one]
  split
  · rfl
  · next hne => exact (h i hi hne).symm

/-! ### Resets -/

theorem amplitude_flip (s : Statevector (Complex ℝ)) {i : Nat} (hi : i < count s.width) :
    (s.flipIf [] q).amplitude i = s.amplitude (flip i q) := by
  rw [flipIf_eq, amplitude_gather _ _ hi, List.all_nil, if_pos rfl]

theorem total_flip (s : Statevector (Complex ℝ)) (hq : q < s.width) :
    (s.flipIf [] q).total = s.total :=
  total_of_involutive (flip · q) rfl (fun _ hi => flip_lt_count hi hq) (fun i => flip_flip i q)
    fun _ hi => s.amplitude_flip hi

theorem resetBy_eq : s.resetBy q d =
    if (s.measureBy q d).1 then (s.measureBy q d).2.flipIf [] q else (s.measureBy q d).2 := rfl

theorem amplitude_resetBy {i : Nat} (hi : i < count s.width) (hzero : i.testBit q = false) :
    (s.resetBy q d).amplitude i = (s.measureBy q d).2.amplitude (withBit i q (s.measureBy q d).1) := by
  rw [resetBy_eq]
  cases (s.measureBy q d).1 with
  | false => rw [if_neg Bool.false_ne_true, withBit_of_eq hzero]
  | true =>
    rw [if_pos rfl, withBit_of_ne (by simp [hzero] : i.testBit q ≠ true)]
    exact amplitude_flip (s.measureBy q d).2 hi

theorem certain_resetBy (hq : q < s.width) (h0 : 0 ≤ d) (h1 : d < 1) :
    (s.resetBy q d).Certain q false := by
  have hcertain : (s.measureBy q d).2.Certain q (s.measureBy q d).1 := certain_measureBy h0 h1
  rw [resetBy_eq]
  cases hb : (s.measureBy q d).1 with
  | false => rwa [hb] at hcertain
  | true =>
    intro i (hi : i < count s.width) hone
    rw [if_pos rfl, amplitude_flip (s.measureBy q d).2 hi]
    refine hcertain _ (flip_lt_count hi hq) ?_
    rw [hb, testBit_flip]
    simpa using hone

theorem total_resetBy (hs : s.total = 1) (hq : q < s.width) (h0 : 0 ≤ d) (h1 : d < 1) :
    (s.resetBy q d).total = 1 := by
  rw [resetBy_eq]
  split
  · exact (total_flip (s.measureBy q d).2 hq).trans (total_measureBy hs h0 h1)
  · exact total_measureBy hs h0 h1

theorem Certain.resetBy_eq (h : s.Certain q false) (hs : s.total = 1) (h0 : 0 ≤ d) (h1 : d < 1) :
    s.resetBy q d = s := by
  rw [Statevector.resetBy_eq, h.measureBy_eq hs h0 h1]
  rfl

/-! ### Draws -/

theorem draw_bounds (k : Draw) : (0 : ℝ) ≤ Scalar.ofDraw k.val ∧ (Scalar.ofDraw k.val : ℝ) < 1 := by
  have hdraw : (Scalar.ofDraw k.val : ℝ) = (k.val : ℝ) / 2 ^ 53 := rfl
  have hlt : (k.val : ℝ) < 2 ^ 53 := by exact_mod_cast k.isLt
  rw [hdraw]
  exact ⟨by positivity, (div_lt_one (by positivity)).2 hlt⟩

variable {σ : Type} [DrawSource σ] (source : σ)

theorem total_measure (hs : s.total = 1) (q : Nat) : (s.measure q source).2.1.total = 1 :=
  total_measureBy hs (draw_bounds _).1 (draw_bounds _).2

theorem total_reset (hs : s.total = 1) (hq : q < s.width) : (s.reset q source).1.total = 1 :=
  total_resetBy hs hq (draw_bounds _).1 (draw_bounds _).2

end Statevector

open Statevector in
/-- A measurement of a normalised state with a draw of the unit interval, as every source gives them,
keeps some weight. It sets the amplitudes at which the qubit does not read the outcome to zero and scales
all others by the factor that makes up for the loss, so that the state is normalised again, the qubit is
certain, and measuring it again gives the same outcome and the same state. After a reset the qubit is zero,
the amplitudes are those that a measurement keeps, and another reset changes nothing. -/
theorem measurement_is_final {σ : Type} [DrawSource σ] (s : Statevector (Complex ℝ)) (hs : s.total = 1)
    {q : Nat} (hq : q < s.width) :
    (∀ source : σ, ∃ d : ℝ, 0 ≤ d ∧ d < 1 ∧
      s.measure q source = ((s.measureBy q d).1, (s.measureBy q d).2, (DrawSource.next source).2) ∧
      s.reset q source = (s.resetBy q d, (DrawSource.next source).2)) ∧
    ∀ d : ℝ, 0 ≤ d → d < 1 → ∀ b t, s.measureBy q d = (b, t) →
      (∃ scale : ℝ, 0 < scale ∧
        scale * scale * (if b then s.probabilityOne q else 1 - s.probabilityOne q) = 1 ∧
        (∀ i < count s.width,
          t.amplitude i = if i.testBit q = b then (s.amplitude i).scale scale else 0) ∧
        ∀ i < count s.width, i.testBit q = false →
          (s.resetBy q d).amplitude i = (s.amplitude (withBit i q b)).scale scale) ∧
      0 < (if b then s.probabilityOne q else 1 - s.probabilityOne q) ∧
      t.width = s.width ∧ t.total = 1 ∧ t.probabilityOne q = (if b then 1 else 0) ∧
      (∀ d' : ℝ, 0 ≤ d' → d' < 1 → t.measureBy q d' = (b, t)) ∧
      (∀ i, i.testBit q = true → (s.resetBy q d).amplitude i = 0) ∧
      (s.resetBy q d).width = s.width ∧ (s.resetBy q d).total = 1 ∧
      ∀ d' : ℝ, 0 ≤ d' → d' < 1 → (s.resetBy q d).resetBy q d' = s.resetBy q d := by
  refine ⟨fun source => ⟨Scalar.ofDraw (DrawSource.next source).1.val, (draw_bounds _).1,
    (draw_bounds _).2, rfl, rfl⟩, ?_⟩
  rintro d h0 h1 b t hmeasure
  obtain rfl : (s.measureBy q d).1 = b := by rw [hmeasure]
  obtain rfl : (s.measureBy q d).2 = t := by rw [hmeasure]
  have hwidth : (s.resetBy q d).width = s.width := by
    rw [resetBy_eq]
    split <;> rfl
  have hcertain : (s.measureBy q d).2.Certain q (s.measureBy q d).1 := certain_measureBy h0 h1
  have htotal : (s.measureBy q d).2.total = 1 := total_measureBy hs h0 h1
  have hzero : (s.resetBy q d).Certain q false := certain_resetBy hq h0 h1
  have hreset : (s.resetBy q d).total = 1 := total_resetBy hs hq h0 h1
  refine ⟨⟨s.factor q d, factor_pos h0 h1, factor_mul_self h0 h1,
    fun i hi => amplitude_measureBy h0 h1 hi, fun i hi hbit => ?_⟩, kept_pos h0 h1, rfl, htotal,
    hcertain.probabilityOne_eq htotal, fun d' => hcertain.measureBy_eq htotal, fun i hbit => ?_, hwidth,
    hreset, fun d' => hzero.resetBy_eq hreset⟩
  · rw [amplitude_resetBy hi hbit, amplitude_measureBy h0 h1 (withBit_lt_count hi hq _),
      testBit_withBit, if_pos rfl, if_pos rfl]
  · by_cases hi : i < count s.width
    · exact hzero i (hwidth.symm ▸ hi) (by simp [hbit])
    · exact amplitude_of_le _ (by rw [hwidth]; exact Nat.le_of_not_lt hi)

/-- A qubit that is more likely to read one. -/
noncomputable def Statevector.uneven : Statevector (Complex ℝ) :=
  .ofFn 1 fun i => if i = 0 then ⟨3 / 5, 0⟩ else ⟨0, 4 / 5⟩

open Statevector in
theorem uneven_measured : uneven.total = 1 ∧ 0 < uneven.width ∧
    (uneven.measureBy 0 (1 / 2)).1 = true ∧ (uneven.measureBy 0 (1 / 2)).2.probabilityOne 0 = 1 ∧
    (uneven.measureBy 0 (1 / 2)).2.measureBy 0 0 = (true, (uneven.measureBy 0 (1 / 2)).2) := by
  have h0 : uneven.amplitude 0 = ⟨3 / 5, 0⟩ := amplitude_ofFn _ (by decide)
  have h1 : uneven.amplitude 1 = ⟨0, 4 / 5⟩ := amplitude_ofFn _ (by decide)
  have htotal : uneven.total = 1 := by
    refine (sum_range_succ _ 1).trans ?_
    rw [sum_range_one, h0, h1]
    norm_num [Complex.normSq]
  have hone : uneven.probabilityOne 0 = 16 / 25 := by
    have hfilter : (List.range (count uneven.width)).filter (·.testBit 0) = [1] := rfl
    rw [probabilityOne, hfilter, List.foldl_cons, List.foldl_nil, h1]
    norm_num [Complex.normSq]
  have houtcome : (uneven.measureBy 0 (1 / 2)).1 = true := by
    rw [measureBy_fst, hone]
    norm_num
  have hmeasured := (measurement_is_final (σ := GivenDraws) uneven htotal Nat.one_pos).2 (1 / 2)
    (by norm_num) (by norm_num) true _ (Prod.ext houtcome rfl)
  obtain ⟨-, -, -, -, hcertain, hagain, -⟩ := hmeasured
  exact ⟨htotal, Nat.one_pos, houtcome, hcertain, hagain 0 le_rfl one_pos⟩

end QuantumRelay
