import Mathlib.Algebra.GroupWithZero.Nat
import Mathlib.Algebra.Order.Group.Nat
import QuantumRelay.Proofs.Circuit.WellFormed

/-!
# Parameters in place

Replacing parameters is checked first and done in place afterwards, one instruction after the other
(`bindInPlace`). A vector that passes the check does not run out on the way, so a list of instructions
is left as it was or has the whole vector (`bindInPlace_eq`).

Parameters are read from the same instructions as they are written to, in the same order. So what has been
written is read (`collect_assign`), what has been read can be written without any effect
(`assign_collect`), and only what was written last counts (`bind_assign`), whatever the instructions
are (`bind_lawful`). A snapshot that has been set right stays so.
-/

namespace QuantumRelay

namespace Parameters

variable {circuit : String} {is is' : List Instruction} {values : List Float}

/-! ### One write after the other -/

/-- Overwrite the parameters of the instructions ahead, after those that have been passed. A parametric
instruction takes as many values as it has parameters; if fewer are left, nothing comes of the call. -/
def overwrite : List Instruction → List Instruction → List Float → Option (List Instruction)
  | passed, [], _ => some passed
  | passed, i :: ahead, left =>
    if i.isParametric then
      if left.length < i.params.length then none
      else
        overwrite (passed ++ [{ i with params := left.take i.params.length }]) ahead
          (left.drop i.params.length)
    else overwrite (passed ++ [i]) ahead left

/-- A call on a list in place: the answer, and the list that it leaves. -/
def bindInPlace (circuit : String) (is : List Instruction) (values : List Float) :
    Option (Except CircuitError Unit × List Instruction) :=
  let expected := ((is.filter (·.isParametric)).map (·.params.length)).sum
  if values.length ≠ expected || values.any fun (v : Float) => !v.isFinite then
    some (.error (.parameterMismatch circuit expected values.length), is)
  else (overwrite [] is values).map fun written => (.ok (), written)

theorem length_collect (is : List Instruction) :
    (collect is).length = ((is.filter (·.isParametric)).map (·.params.length)).sum := by
  rw [collect, List.length_flatMap]

theorem overwrite_eq (passed : List Instruction) (h : values.length = (collect is).length) :
    overwrite passed is values = some (passed ++ assign values is) := by
  induction is generalizing passed values with
  | nil => rw [overwrite, assign, List.append_nil]
  | cons i rest ih =>
    cases hi : i.isParametric with
    | true =>
      obtain ⟨hhead, hrest⟩ := length_split hi h
      have henough : ¬values.length < i.params.length := by
        rw [List.length_take] at hhead
        omega
      rw [overwrite, if_pos hi, if_neg henough, ih _ hrest, assign_cons_of_parametric hi,
        List.append_assoc]
      rfl
    | false =>
      rw [overwrite, hi, if_neg Bool.false_ne_true, ih _ (length_rest hi h), assign_cons_of_fixed hi,
        List.append_assoc]
      rfl

theorem bindInPlace_eq (circuit : String) (is : List Instruction) (values : List Float) :
    bindInPlace circuit is values = some (match bind circuit is values with
      | .ok written => (.ok (), written)
      | .error e => (.error e, is)) := by
  unfold bindInPlace
  rw [← length_collect]
  dsimp only
  by_cases h : Fits is values
  · rw [bind_of_fits h, fits_iff.1 h, if_neg Bool.false_ne_true, overwrite_eq [] h.1]
    rfl
  · rw [bind_of_not_fits h, if_pos]
    rwa [fits_iff, Bool.not_eq_false] at h

/-! ### Reading and writing -/

theorem assign_collect (is : List Instruction) : assign (collect is) is = is := by
  induction is with
  | nil => rfl
  | cons i rest ih =>
    cases hi : i.isParametric with
    | true =>
      rw [assign_cons_of_parametric hi, collect_cons, if_pos hi, List.take_left, List.drop_left, ih]
    | false =>
      rw [assign_cons_of_fixed hi, collect_cons, hi, if_neg Bool.false_ne_true, List.nil_append, ih]

theorem bind_assign (h : values.length = (collect is).length) (others : List Float) :
    bind circuit (assign values is) others = bind circuit is others := by
  by_cases hothers : Fits is others
  · rw [bind_of_fits hothers, bind_of_fits ((fits_assign h).2 hothers), assign_assign h]
  · have hothers' : ¬Fits (assign values is) others := mt (fits_assign h).1 hothers
    rw [bind_of_not_fits hothers, bind_of_not_fits hothers', collect_assign h, h]

theorem not_fits_iff : ¬Fits is values ↔
    values.length ≠ (collect is).length ∨ ∃ v ∈ values, v.isFinite = false := by
  simp only [Fits, not_and_or, not_forall, exists_prop, Bool.not_eq_true, ne_eq]

end Parameters

/-! ### Snapshots -/

namespace Snapshot

variable {t t' : Snapshot} {values : List Float}

theorem finite_of_normalized {s : Snapshot} (h : s.normalized = .ok t) :
    ∀ v ∈ t.parameters, v.isFinite = true := by
  obtain ⟨c, hc, h⟩ := bind_eq_ok.1 h
  obtain rfl := Except.ok.inj h
  intro v hv
  obtain ⟨i, hi, hv⟩ := List.mem_flatMap.1 hv
  exact ((Circuit.WellFormed.ofSnapshot hc).takes i (List.mem_of_mem_filter hi)).params_finite v hv

/-- A snapshot as another one with a parameter vector of its own. -/
structure Rebound (t : Snapshot) (values : List Float) (t' : Snapshot) : Prop where
  /-- It is as valid as a snapshot that has been set right. -/
  normalized : t'.normalized = .ok t'
  parameters : t'.parameters = values
  rest : t' = { t with instructions := t'.instructions }
  /-- Nothing of the other snapshot is lost but its parameters. -/
  back : t'.withParameters t.parameters = .ok t

theorem rebound_of_normalized (ht : t.normalized = .ok t)
    (h : t.withParameters values = .ok t') : Rebound t values t' := by
  obtain ⟨⟨hlength, hfinite⟩, rfl⟩ := withParameters_eq_ok.1 h
  refine ⟨normalized_withParameters ht h, Parameters.collect_assign hlength, rfl, ?_⟩
  refine withParameters_eq_ok.2 ⟨?_, ?_⟩
  · exact (Parameters.fits_assign hlength).2 ⟨rfl, finite_of_normalized ht⟩
  · rw [Parameters.assign_assign hlength, parameters, Parameters.assign_collect]

end Snapshot

namespace Parameters

/-- What comes of a parameter vector for a list of instructions. -/
structure Lawful (circuit : String) (is : List Instruction) (values : List Float) : Prop where
  /-- It is refused if and only if its length is wrong or a value is not finite. -/
  refused : ∀ e, bind circuit is values = .error e ↔
    (values.length ≠ (collect is).length ∨ ∃ v ∈ values, v.isFinite = false) ∧
      e = .parameterMismatch circuit (collect is).length values.length
  /-- In place, a list is left as it was if the vector is refused, and else as the new one. -/
  inPlace : bindInPlace circuit is values = some (match bind circuit is values with
    | .ok written => (.ok (), written)
    | .error e => (.error e, is))
  /-- Afterwards the parameters are the vector. -/
  collected : ∀ is', bind circuit is values = .ok is' → collect is' = values
  /-- Parametric instructions have as many other parameters, and nothing else changes. -/
  kept : ∀ is', bind circuit is values = .ok is' →
    List.Forall₂ (Instruction.Rebinds values) is is'
  /-- A second vector is treated as if it were the first one. -/
  overwritten : ∀ is', bind circuit is values = .ok is' →
    ∀ others, bind circuit is' others = bind circuit is others
  /-- Finite parameters that have been read can be put back. -/
  restored : (∀ v ∈ collect is, v.isFinite = true) → bind circuit is (collect is) = .ok is
  /-- A valid snapshot of the instructions stays valid with the vector. -/
  snapshot : ∀ t : Snapshot, t.id = circuit → t.instructions = is → t.normalized = .ok t →
    ∀ t', t.withParameters values = .ok t' → t.Rebound values t'

/-- Whatever the instructions and the values are, parameters are replaced as a whole or not at all. -/
theorem bind_lawful (circuit : String) (is : List Instruction) (values : List Float) :
    Lawful circuit is values where
  refused _ := by rw [bind_eq_error, not_fits_iff]
  inPlace := bindInPlace_eq circuit is values
  collected is' h := by
    obtain ⟨hfits, rfl⟩ := bind_eq_ok.1 h
    exact collect_assign hfits.1
  kept is' h := by
    obtain ⟨hfits, rfl⟩ := bind_eq_ok.1 h
    exact rebinds_assign hfits.1
  overwritten is' h others := by
    obtain ⟨hfits, rfl⟩ := bind_eq_ok.1 h
    exact bind_assign hfits.1 others
  restored h := bind_eq_ok.2 ⟨⟨rfl, h⟩, (assign_collect is).symm⟩
  snapshot _ _ _ ht _ h := Snapshot.rebound_of_normalized ht h

/-- A matrix keeps its parameters, and so do instructions that have none. -/
example : bindInPlace "a"
    [{ name := "rx", qubits := [0], params := [0.5] }, { name := "h", qubits := [0] },
      { name := "unitary", qubits := [0], params := [3], matrix := some [[1, 0], [0, 1]] },
      { name := "u2", qubits := [0], params := [1, 2] }] [4, 5, 6] = some (.ok (),
    [{ name := "rx", qubits := [0], params := [4] }, { name := "h", qubits := [0] },
      { name := "unitary", qubits := [0], params := [3], matrix := some [[1, 0], [0, 1]] },
      { name := "u2", qubits := [0], params := [5, 6] }]) := by rfl

end Parameters

end QuantumRelay
