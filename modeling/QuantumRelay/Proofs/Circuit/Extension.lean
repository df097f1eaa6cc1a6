import Mathlib.Logic.Relation
import Mathlib.Order.Bounds.Basic
import QuantumRelay.Proofs.Circuit.Rebuilding
import QuantumRelay.Proofs.Stopping

/-!
# A new register

A name that is taken gives way to the same name with the number one, then two, and so on, for as long as
they are taken too and there is a 32-bit integer to go on with (`Renames`). That ends
(`renames_wellFounded`), and where it ends is told by `freeName` (`freeName_of_stopped`). The numbers only
run out where more registers are there than they can count (`not_exhausted_of_length_lt`).

`appendRegister` has the effects of a new register one after the other: the name is chosen, the indices
are refused if they do not fit, a name that is not the requested one is told, and only then the circuit
changes. It comes to what `Circuit.addRegister` gives (`appendRegister_eq`). So a register that is refused
leaves no trace, and any other adds the next indices under the right name and nothing else
(`register_appended`).
-/

namespace QuantumRelay.Circuit

/-! ### Choosing a name -/

/-- One turn of the search for a free name, whose state is a name and the number to be tried next. -/
inductive Renames (taken : List String) (base : String) : String × Int32 → String × Int32 → Prop
  | next {name : String} {number : Int32} (h : name ∈ taken) (hnext : number ≠ Int32.maxValue) :
      Renames taken base (name, number) (s!"{base}_{number}", number + 1)

variable {taken : List String} {base : String}

theorem stopped_iff {s : String × Int32} :
    (∀ after, ¬Renames taken base s after) ↔ s.1 ∉ taken ∨ s.2 = Int32.maxValue := by
  constructor
  · intro h
    by_contra hnot
    rw [not_or, not_not] at hnot
    exact h _ (.next hnot.1 hnot.2)
  · rintro (hfree | hlast) _ ⟨hmem, hnext⟩
    · exact hfree hmem
    · exact hnext hlast

/-- Every turn leaves one number fewer. -/
theorem renames_wellFounded (taken : List String) (base : String) :
    WellFounded fun after before => Renames taken base before after := by
  refine Subrelation.wf (fun {after before} hturn => ?_)
    (InvImage.wf (fun s : String × Int32 => numbersLeft s.2) wellFounded_lt)
  obtain ⟨-, hnext⟩ := hturn
  exact numbersLeft_lt hnext

theorem searchName_of_turn {s after : String × Int32} (h : Renames taken base s after) :
    searchName taken base s.1 s.2 = searchName taken base after.1 after.2 := by
  obtain ⟨hmem, hnext⟩ := h
  rw [searchName, if_pos (by simpa using hmem), if_neg hnext]

theorem searchName_of_turns {s after : String × Int32}
    (h : Relation.ReflTransGen (Renames taken base) s after) :
    searchName taken base s.1 s.2 = searchName taken base after.1 after.2 := by
  induction h with
  | refl => rfl
  | tail _ hturn ih => exact ih.trans (searchName_of_turn hturn)

/-- A search that has stopped has found the free name, or no number is left. -/
theorem freeName_of_stopped {s : String × Int32}
    (h : Relation.ReflTransGen (Renames taken base) (base, 1) s)
    (hstopped : ∀ after, ¬Renames taken base s after) :
    freeName taken base = if s.1 ∈ taken then .error .stopped else .ok s.1 := by
  rw [freeName, searchName_of_turns h, searchName]
  by_cases hmem : s.1 ∈ taken
  · have hlast := (stopped_iff.1 hstopped).resolve_left (not_not.2 hmem)
    rw [if_pos (by simpa using hmem), if_pos hlast, if_pos hmem]
  · rw [if_neg (by simpa using hmem), if_neg hmem]

/-! ### One effect after the other -/

/-- What a call works on in place. -/
structure Site where
  circuit : Circuit
  /-- What has been told so far. -/
  told : List Notice

/-- Append a register in place: what the call answers, and what it leaves behind. -/
def appendRegister (s : Site) (kind : RegisterKind) (base : String) (size : UInt32) :
    Except CircuitError String × Site :=
  match freeName ((s.circuit.registers kind).map (·.name)) base with
  | .error e => (.error e, s)
  | .ok name =>
    match Register.contiguous? name (s.circuit.size kind) size with
    | none => (.error (.registerOverflow kind base size), s)
    | some r =>
      let s := if name = base then s
        else { s with told := s.told ++ [.registerRenamed kind base name] }
      let s := { s with circuit :=
        s.circuit.withRegisters kind (s.circuit.registers kind ++ [r]) (s.circuit.size kind) }
      let s := { s with circuit :=
        s.circuit.withRegisters kind (s.circuit.registers kind) (s.circuit.size kind + size) }
      (.ok name, s)

/-- Nothing is done before a register is refused. -/
theorem appendRegister_eq (s : Site) (kind : RegisterKind) (base : String) (size : UInt32) :
    appendRegister s kind base size = match s.circuit.addRegister kind base size with
      | .ok e => (.ok e.name, ⟨e.circuit, s.told ++ e.notices⟩)
      | .error e => (.error e, s) := by
  unfold appendRegister addRegister
  cases freeName ((s.circuit.registers kind).map (·.name)) base with
  | error e => rfl
  | ok name =>
    rw [ok_bind]
    dsimp only
    cases Register.contiguous? name (s.circuit.size kind) size with
    | none => rfl
    | some r =>
      dsimp only
      split
      · rw [List.append_nil]
        cases kind with
        | quantum => rfl
        | classical => rfl
      · cases kind with
        | quantum => rfl
        | classical => rfl

/-! ### What a new register comes to -/

abbrev registerNames (c : Circuit) (kind : RegisterKind) : List String := (c.registers kind).map (·.name)

/-- How many indices the registers of a kind hold. -/
def count (c : Circuit) (kind : RegisterKind) : Nat := (Register.allIndices (c.registers kind)).length

/-- A circuit with one more register of `size` new indices, and nothing else that is new. -/
structure Gains (c c' : Circuit) (kind : RegisterKind) (name : String) (size : UInt32) : Prop where
  /-- The register comes last and holds the next indices. -/
  register : ∃ indices, c'.registers kind = c.registers kind ++ [⟨name, indices⟩] ∧
    indices.map (·.toNat) = List.range' (c.count kind) size.toNat
  total : (c'.size kind).toNat = c.count kind + size.toNat
  others : ∀ other, other ≠ kind →
    c'.registers other = c.registers other ∧ c'.size other = c.size other
  instructions : c'.instructions = c.instructions
  /-- Nor is anything else new. -/
  rest : c.withRegisters kind (c'.registers kind) (c'.size kind) = c'

/-- The name that is given for a requested one. -/
structure Named (taken : List String) (base name : String) : Prop where
  of_free : base ∉ taken → name = base
  /-- A name that is taken gets the least number from one on that makes it free; this is no larger than the
  number of names that are taken. -/
  of_taken : base ∈ taken → ∃ k ≤ taken.length,
    IsLeast {k | 1 ≤ k ∧ numbered base k ∉ taken} k ∧ name = numbered base k
  free : name ∉ taken

/-- What comes of a call to append a register. -/
structure Appends (c : Circuit) (kind : RegisterKind) (base : String) (size : UInt32) : Prop where
  /-- No search for a name goes on for ever, so it stops: -/
  ends : WellFounded fun after before => Renames (c.registerNames kind) base before after
  stops : ∃ s, Relation.ReflTransGen (Renames (c.registerNames kind) base) (base, 1) s ∧
    ∀ after, ¬Renames (c.registerNames kind) base s after
  /-- at the name that is used, or where the numbers run out. -/
  found : ∀ s, Relation.ReflTransGen (Renames (c.registerNames kind) base) (base, 1) s →
    (∀ after, ¬Renames (c.registerNames kind) base s after) →
      if s.1 ∈ c.registerNames kind then c.addRegister kind base size = .error .stopped
      else ∀ e, c.addRegister kind base size = .ok e → e.name = s.1
  /-- They run out exactly if the name is taken with all numbers but the last, -/
  exhausted : c.addRegister kind base size = .error .stopped ↔ Exhausted (c.registerNames kind) base
  /-- and for that there must be as many registers. -/
  few : (c.registers kind).length < lastNumber → ¬Exhausted (c.registerNames kind) base
  /-- Indices past the largest one are refused. -/
  refused : ¬Exhausted (c.registerNames kind) base → UInt32.size ≤ c.count kind + size.toNat →
    c.addRegister kind base size = .error (.registerOverflow kind base size)
  /-- All others are appended, with a warning exactly if the name is not the requested one. -/
  accepted : ¬Exhausted (c.registerNames kind) base → c.count kind + size.toNat < UInt32.size →
    ∃ e, c.addRegister kind base size = .ok e ∧ Named (c.registerNames kind) base e.name ∧
      Gains c e.circuit kind e.name size ∧
      e.notices = if e.name = base then [] else [.registerRenamed kind base e.name]
  /-- A call that is refused leaves the circuit as it was and tells nothing. -/
  inPlace : ∀ told, appendRegister ⟨c, told⟩ kind base size =
    match c.addRegister kind base size with
      | .ok e => (.ok e.name, ⟨e.circuit, told ++ e.notices⟩)
      | .error e => (.error e, ⟨c, told⟩)

variable {c : Circuit}

theorem WellFormed.count_eq (h : WellFormed c) (kind : RegisterKind) :
    c.count kind = (c.size kind).toNat := by
  rw [count, (h.tiling kind).indices, List.length_range]

theorem WellFormed.gains_grown (h : WellFormed c) {kind : RegisterKind} {size : UInt32} (name : String)
    (hfits : (c.size kind).toNat + size.toNat < UInt32.size) :
    Gains c (c.grown ⟨name, Register.run (c.size kind) size⟩ size kind) kind name size := by
  have hindices : (Register.run (c.size kind) size).map (·.toNat) =
      List.range' (c.count kind) size.toNat := by
    rw [Register.map_toNat_run hfits, h.count_eq]
  have htotal : (c.size kind + size).toNat = c.count kind + size.toNat := by
    rw [Register.toNat_add hfits, h.count_eq]
  cases kind with
  | quantum =>
    refine ⟨⟨_, rfl, hindices⟩, htotal, fun other hother => ?_, rfl, rfl⟩
    cases other with
    | quantum => exact absurd rfl hother
    | classical => exact ⟨rfl, rfl⟩
  | classical =>
    refine ⟨⟨_, rfl, hindices⟩, htotal, fun other hother => ?_, rfl, rfl⟩
    cases other with
    | quantum => exact ⟨rfl, rfl⟩
    | classical => exact absurd rfl hother

/-- A register is appended to whatever circuit can be built under the first name that is free, unless its
indices do not fit; then nothing is done and nothing told. -/
theorem register_appended (unique id : String) (numQubits numClbits : UInt32) (ops : List Operation)
    (kind : RegisterKind) (base : String) (size : UInt32) :
    Appends (built unique id numQubits numClbits ops) kind base size := by
  have hbuilt := wellFormed_built unique id numQubits numClbits ops
  set c := built unique id numQubits numClbits ops
  have hcount := hbuilt.count_eq kind
  constructor
  case ends => exact renames_wellFounded _ _
  case stops => exact exists_stopped (renames_wellFounded _ _) _
  case found =>
    intro s hturns hstopped
    have hname := freeName_of_stopped hturns hstopped
    split
    · next hmem =>
      rw [if_pos hmem] at hname
      exact addRegister_of_error hname
    · next hmem =>
      rw [if_neg hmem] at hname
      intro e he
      obtain ⟨-, hfound, -⟩ := addRegister_eq_ok he
      exact Except.ok.inj (hfound.symm.trans hname)
  case exhausted => exact addRegister_eq_stopped.trans freeName_eq_stopped
  case few =>
    intro hfew
    exact not_exhausted_of_length_lt (by rwa [List.length_map])
  case refused =>
    intro hfound hlarge
    obtain ⟨name, hname, -⟩ := exists_freeName hfound
    rw [hcount] at hlarge
    exact addRegister_of_not_fits hname (Nat.not_lt.2 hlarge)
  case accepted =>
    intro hfound hfits
    obtain ⟨name, hname, hfree, hof_free, hof_taken⟩ := exists_freeName hfound
    rw [hcount] at hfits
    refine ⟨_, addRegister_of_fits hname hfits, ⟨hof_free, fun hbase => ?_, hfree⟩,
      hbuilt.gains_grown _ hfits, rfl⟩
    exact hof_taken hbase
  case inPlace =>
    intro told
    exact appendRegister_eq ⟨c, told⟩ kind base size

/-- Names that happen to have a number are passed over. -/
example : ((built "" "a" 1 0 [.addRegister .quantum "q_1" 2]).addRegister .quantum "q" 3).map
    (fun e => (e.name, e.notices)) = .ok ("q_2", [.registerRenamed .quantum "q" "q_2"]) := by
  cbv

end QuantumRelay.Circuit
