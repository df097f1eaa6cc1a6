import QuantumRelay.Circuit.Snapshot
import QuantumRelay.Proofs.Fallible
import Mathlib.Data.List.Forall2

/-!
# Replacing the parameter vector

A vector that has the right length and finite values only is dealt out to the parametric instructions
in turn (`bind_eq_ok`), and to nothing else: every instruction keeps its name, its indices and how many
parameters it has (`rebinds_assign`). Afterwards the parameters are the new vector (`collect_assign`),
and nothing is left of the old one (`assign_assign`).
-/

namespace QuantumRelay

/-- An instruction with other parameters from a vector, and no more of them. -/
structure Instruction.Rebinds (values : List Float) (i i' : Instruction) : Prop where
  rest : { i with params := i'.params } = i'
  length : i'.params.length = i.params.length
  mem : ∀ p ∈ i'.params, p ∈ values ∨ p ∈ i.params
  fixed : i.isParametric = false → i' = i

namespace Instruction.Rebinds

variable {values : List Float} {i i' : Instruction}

theorem refl (values : List Float) (i : Instruction) : i.Rebinds values i :=
  ⟨rfl, rfl, fun _ hp => .inr hp, fun _ => rfl⟩

theorem name_eq (h : i.Rebinds values i') : i'.name = i.name := by rw [← h.rest]

theorem relay_eq (h : i.Rebinds values i') : i'.relay = i.relay := by rw [relay, relay, h.name_eq]

theorem isParametric_eq (h : i.Rebinds values i') : i'.isParametric = i.isParametric := by
  have hmatrix : i'.matrix = i.matrix := by rw [← h.rest]
  have hempty : i'.params.isEmpty = i.params.isEmpty := by
    rw [Bool.eq_iff_iff, List.isEmpty_iff_length_eq_zero, List.isEmpty_iff_length_eq_zero, h.length]
  rw [isParametric, isParametric, hmatrix, hempty]

theorem any_eq {is is' : List Instruction} (h : List.Forall₂ (Instruction.Rebinds values) is is')
    {f : Instruction → Bool} (hf : ∀ i i', i.Rebinds values i' → f i' = f i) :
    is'.any f = is.any f := by
  induction h with
  | nil => rfl
  | cons hi _ ih => rw [List.any_cons, List.any_cons, hf _ _ hi, ih]

theorem exists_mem {is is' : List Instruction} (h : List.Forall₂ (Instruction.Rebinds values) is is')
    {i' : Instruction} (hi' : i' ∈ is') : ∃ i ∈ is, i.Rebinds values i' := by
  induction h with
  | nil => cases hi'
  | cons hi _ ih =>
    rcases List.mem_cons.1 hi' with rfl | hi'
    · exact ⟨_, List.mem_cons_self, hi⟩
    · obtain ⟨i, hmem, hrebinds⟩ := ih hi'
      exact ⟨i, List.mem_cons_of_mem _ hmem, hrebinds⟩

end Instruction.Rebinds

namespace Parameters

variable {circuit : String} {values : List Float} {is is' : List Instruction}

/-! ### One instruction at a time -/

theorem collect_cons (i : Instruction) (rest : List Instruction) :
    collect (i :: rest) = (if i.isParametric then i.params else []) ++ collect rest := by
  unfold collect
  cases h : i.isParametric with
  | true => rw [List.filter_cons_of_pos h, List.flatMap_cons, if_pos rfl]
  | false =>
    rw [List.filter_cons_of_neg (by rw [h]; exact Bool.false_ne_true), if_neg Bool.false_ne_true,
      List.nil_append]

theorem assign_cons_of_parametric {i : Instruction} (h : i.isParametric = true)
    (values : List Float) (rest : List Instruction) : assign values (i :: rest) =
      { i with params := values.take i.params.length } ::
        assign (values.drop i.params.length) rest := by
  rw [assign, if_pos h]

theorem assign_cons_of_fixed {i : Instruction} (h : i.isParametric = false) (values : List Float)
    (rest : List Instruction) : assign values (i :: rest) = i :: assign values rest := by
  rw [assign, if_neg (by rw [h]; exact Bool.false_ne_true)]

theorem isParametric_with {i : Instruction} (h : i.isParametric = true)
    {params : List Float} (hlen : params.length = i.params.length) :
    ({ i with params } : Instruction).isParametric = true := by
  unfold Instruction.isParametric at h ⊢
  obtain ⟨hparams, hmatrix⟩ := Bool.and_eq_true_iff.1 h
  refine Bool.and_eq_true_iff.2 ⟨?_, hmatrix⟩
  cases params with
  | nil => cases hi : i.params with
    | nil => rw [hi] at hparams; cases hparams
    | cons p ps => rw [hi] at hlen; cases hlen
  | cons p ps => rfl

theorem length_split {i : Instruction} {rest : List Instruction} (h : i.isParametric = true)
    (hlen : values.length = (collect (i :: rest)).length) :
    (values.take i.params.length).length = i.params.length ∧
      (values.drop i.params.length).length = (collect rest).length := by
  rw [collect_cons, if_pos h, List.length_append] at hlen
  rw [List.length_take, List.length_drop]
  omega

theorem length_rest {i : Instruction} {rest : List Instruction} (h : i.isParametric = false)
    (hlen : values.length = (collect (i :: rest)).length) :
    values.length = (collect rest).length := by
  rwa [collect_cons, h, if_neg Bool.false_ne_true, List.nil_append] at hlen

/-! ### Dealing a vector out -/

theorem collect_assign (h : values.length = (collect is).length) :
    collect (assign values is) = values := by
  induction is generalizing values with
  | nil => exact (List.length_eq_zero_iff.1 h).symm
  | cons i rest ih =>
    cases hi : i.isParametric with
    | true =>
      obtain ⟨hhead, hrest⟩ := length_split hi h
      rw [assign_cons_of_parametric hi, collect_cons, if_pos (isParametric_with hi hhead), ih hrest,
        List.take_append_drop]
    | false =>
      rw [assign_cons_of_fixed hi, collect_cons, hi, if_neg Bool.false_ne_true, List.nil_append,
        ih (length_rest hi h)]

theorem assign_assign {others : List Float} (h : others.length = (collect is).length) :
    assign values (assign others is) = assign values is := by
  induction is generalizing values others with
  | nil => rfl
  | cons i rest ih =>
    cases hi : i.isParametric with
    | true =>
      obtain ⟨hhead, hrest⟩ := length_split hi h
      rw [assign_cons_of_parametric hi, assign_cons_of_parametric hi,
        assign_cons_of_parametric (isParametric_with hi hhead)]
      dsimp only
      rw [hhead, ih hrest]
    | false =>
      rw [assign_cons_of_fixed hi, assign_cons_of_fixed hi, assign_cons_of_fixed hi,
        ih (length_rest hi h)]

theorem rebinds_assign (h : values.length = (collect is).length) :
    List.Forall₂ (Instruction.Rebinds values) is (assign values is) := by
  have hmono {values values' : List Float} (hsub : values ⊆ values') (i i' : Instruction)
      (hi : i.Rebinds values i') : i.Rebinds values' i' :=
    ⟨hi.rest, hi.length, fun p hp => (hi.mem p hp).imp_left fun hv => hsub hv, hi.fixed⟩
  induction is generalizing values with
  | nil => exact .nil
  | cons i rest ih =>
    cases hi : i.isParametric with
    | true =>
      obtain ⟨hhead, hrest⟩ := length_split hi h
      rw [assign_cons_of_parametric hi]
      refine .cons ⟨rfl, hhead, fun p hp => .inl (List.mem_of_mem_take hp), fun hfixed => ?_⟩
        ((ih hrest).imp (hmono (List.drop_subset ..)))
      rw [hi] at hfixed
      cases hfixed
    | false =>
      rw [assign_cons_of_fixed hi]
      exact .cons (.refl values i) (ih (length_rest hi h))

/-! ### Replacing it as a whole -/

/-- A vector is taken if it is as long as the one before and has finite values only. -/
def Fits (is : List Instruction) (values : List Float) : Prop :=
  values.length = (collect is).length ∧ ∀ v ∈ values, v.isFinite = true

theorem fits_iff : Fits is values ↔
    (values.length ≠ (collect is).length || values.any fun (v : Float) => !v.isFinite) = false := by
  simp [Fits]

theorem bind_of_fits (h : Fits is values) : bind circuit is values = .ok (assign values is) := by
  unfold bind
  dsimp only
  rw [if_neg]
  rw [fits_iff.1 h]
  exact Bool.false_ne_true

theorem bind_of_not_fits (h : ¬Fits is values) : bind circuit is values =
    .error (.parameterMismatch circuit (collect is).length values.length) := by
  unfold bind
  dsimp only
  rw [if_pos]
  rwa [fits_iff, Bool.not_eq_false] at h

theorem bind_eq_ok : bind circuit is values = .ok is' ↔ Fits is values ∧ is' = assign values is := by
  by_cases h : Fits is values
  · rw [bind_of_fits h, Except.ok.injEq, eq_comm]
    exact ⟨fun heq => ⟨h, heq⟩, fun heq => heq.2⟩
  · simp [bind_of_not_fits h, h]

theorem bind_eq_error {e : CircuitError} : bind circuit is values = .error e ↔
    ¬Fits is values ∧ e = .parameterMismatch circuit (collect is).length values.length := by
  by_cases h : Fits is values
  · simp [bind_of_fits h, h]
  · simp [bind_of_not_fits h, h, eq_comm]

theorem fits_assign {others : List Float} (h : others.length = (collect is).length) :
    Fits (assign others is) values ↔ Fits is values := by
  rw [Fits, Fits, collect_assign h, h]

end Parameters

namespace Snapshot

variable {s s' : Snapshot} {values : List Float}

theorem withParameters_eq_ok : s.withParameters values = .ok s' ↔
    Parameters.Fits s.instructions values ∧
      s' = { s with instructions := Parameters.assign values s.instructions } := by
  unfold withParameters
  rw [QuantumRelay.bind_eq_ok]
  simp only [Parameters.bind_eq_ok]
  constructor
  · rintro ⟨is, ⟨hfits, rfl⟩, h⟩
    exact ⟨hfits, (Except.ok.inj h).symm⟩
  · rintro ⟨hfits, rfl⟩
    exact ⟨_, ⟨hfits, rfl⟩, rfl⟩

theorem withParameters_of_not_fits (h : ¬Parameters.Fits s.instructions values) :
    s.withParameters values =
      .error (.parameterMismatch s.id s.parameters.length values.length) := by
  unfold withParameters
  rw [Parameters.bind_of_not_fits h]
  rfl

end Snapshot

end QuantumRelay
