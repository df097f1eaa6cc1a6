import QuantumRelay.Proofs.Circuit.Parameters
import QuantumRelay.Proofs.Circuit.Snapshot

/-!
# Well-formed circuits

`Circuit.WellFormed` says what every circuit is that can be built: its registers tile its indices, its
instructions are valid for its sizes, and its flags say what the instructions are. Growing and new
parameters keep it (`WellFormed.addRegister`, `WellFormed.extended`, `WellFormed.assignParameters`),
and a circuit that has it is told by its snapshot: built again from it, the circuit is the same
(`WellFormed.ofSnapshot_snapshot`).
-/

namespace QuantumRelay

/-! ### Flags and instructions -/

theorem Instruction.relays_iff {kind : RelayKind} {i : Instruction} :
    i.relays kind = true ↔ ∃ role, i.relay = some ⟨kind, role⟩ := by
  unfold relays
  cases i.relay with
  | none => simp
  | some r =>
    obtain ⟨k, role⟩ := r
    simp

theorem Parameters.collect_eq_nil_iff {is : List Instruction} :
    collect is = [] ↔ ∀ i ∈ is, i.isParametric = false := by
  induction is with
  | nil => simp [collect]
  | cons i rest ih =>
    rw [collect_cons, List.append_eq_nil_iff, ih, List.forall_mem_cons]
    refine and_congr_left fun _ => ?_
    cases h : i.isParametric with
    | false => simp
    | true =>
      have hparams : i.params ≠ [] := by
        rintro hnil
        rw [Instruction.isParametric, hnil] at h
        cases h
      simp [hparams]

theorem Circuit.Takes.params_finite {numQubits numClbits : UInt32} {id : String} {i : Instruction}
    (h : Takes numQubits numClbits id i) : ∀ x ∈ i.params, x.isFinite = true := by
  obtain ⟨spec, hspec⟩ := h
  obtain ⟨-, -, -, hparams, -⟩ := Instruction.validate_eq_ok.1 hspec
  exact (Instruction.badParams?_eq_none_iff.1 hparams).2

/-- The right parameters do no harm to an instruction that a circuit takes. -/
theorem Circuit.Takes.rebinds {numQubits numClbits : UInt32} {id : String} {values : List Float}
    {i i' : Instruction} (h : Takes numQubits numClbits id i) (hi : i.Rebinds values i')
    (hfinite : ∀ v ∈ values, v.isFinite = true) : Takes numQubits numClbits id i' := by
  obtain ⟨spec, hspec⟩ := h
  refine ⟨spec, ?_⟩
  rw [Instruction.validate_eq_ok, Instruction.badParams?_eq_none_iff] at hspec ⊢
  obtain ⟨hname, harity, hclbits, ⟨hlen, hparams⟩, hpeers⟩ := hspec
  rw [← hi.rest]
  refine ⟨hname, harity, hclbits, ⟨hi.length.trans hlen, fun p hp => ?_⟩, hpeers⟩
  exact (hi.mem p hp).elim (hfinite p) (hparams p)

namespace Circuit

def hasRelay (c : Circuit) : RelayKind → Bool
  | .classical => c.hasClassicalRelay
  | .quantum => c.hasQuantumRelay

/-- What all circuits are that can be built. -/
structure WellFormed (c : Circuit) : Prop where
  tiling : ∀ kind, Register.Tiling (c.registers kind) (c.size kind)
  id_ne : c.id ≠ ""
  takes : ∀ i ∈ c.instructions, Takes c.numQubits c.numClbits c.id i
  parametric : c.isParametric = true ↔ c.parameters ≠ []
  relay : ∀ kind, c.hasRelay kind = true ↔ ∃ i ∈ c.instructions, ∃ role, i.relay = some ⟨kind, role⟩

namespace WellFormed

variable {c c' : Circuit}

theorem isParametric_eq (h : WellFormed c) :
    c.isParametric = c.instructions.any (·.isParametric) := by
  rw [Bool.eq_iff_iff, h.parametric, parameters, ne_eq, Parameters.collect_eq_nil_iff,
    List.any_eq_true]
  simp

theorem hasRelay_eq (h : WellFormed c) (kind : RelayKind) :
    c.hasRelay kind = c.instructions.any (·.relays kind) := by
  rw [Bool.eq_iff_iff, h.relay, List.any_eq_true]
  simp only [Instruction.relays_iff]

theorem of_flags (htiling : ∀ kind, Register.Tiling (c.registers kind) (c.size kind))
    (hid : c.id ≠ "") (htakes : ∀ i ∈ c.instructions, Takes c.numQubits c.numClbits c.id i)
    (hparametric : c.isParametric = c.instructions.any (·.isParametric))
    (hrelay : ∀ kind, c.hasRelay kind = c.instructions.any (·.relays kind)) : WellFormed c where
  tiling := htiling
  id_ne := hid
  takes := htakes
  parametric := by
    rw [hparametric, parameters, ne_eq, Parameters.collect_eq_nil_iff, List.any_eq_true]
    simp
  relay kind := by
    rw [hrelay, List.any_eq_true]
    simp only [Instruction.relays_iff]

/-! ### Building -/

theorem of_bare (htiling : ∀ kind, Register.Tiling (c.registers kind) (c.size kind))
    (hid : c.id ≠ "") (hinstructions : c.instructions = []) (hparametric : c.isParametric = false)
    (hrelay : ∀ kind, c.hasRelay kind = false) : WellFormed c :=
  of_flags htiling hid (fun i hi => by rw [hinstructions] at hi; cases hi)
    (by rw [hparametric, hinstructions]; rfl) fun kind => by rw [hrelay, hinstructions]; rfl

theorem ofSize {generated : String} (hgenerated : generated ≠ "") (id : String)
    (numQubits numClbits : UInt32) : WellFormed (ofSize generated id numQubits numClbits) := by
  refine of_bare (fun kind => ?_) ?_ rfl rfl fun kind => by cases kind <;> rfl
  · cases kind with
    | quantum => exact .leading "q" numQubits
    | classical => exact .leading "c" numClbits
  · show (if id.isEmpty then generated else id) ≠ ""
    split
    · exact hgenerated
    · next hid => simpa using hid

theorem extended (h : WellFormed c) {is : List Instruction}
    (his : ∀ i ∈ is, Takes c.numQubits c.numClbits c.id i) : WellFormed (c.extended is) := by
  refine of_flags (fun kind => ?_) h.id_ne (fun i hi => ?_) ?_ fun kind => ?_
  · cases kind with
    | quantum => exact h.tiling .quantum
    | classical => exact h.tiling .classical
  · exact (List.mem_append.1 hi).elim (h.takes i) (his i)
  · show (c.isParametric || is.any (·.isParametric)) = (c.instructions ++ is).any (·.isParametric)
    rw [List.any_append, h.isParametric_eq]
  · show _ = (c.instructions ++ is).any (·.relays kind)
    rw [List.any_append, ← h.hasRelay_eq]
    cases kind with
    | classical => rfl
    | quantum => rfl

theorem resized (h : WellFormed c) {quantumRegisters classicalRegisters : List Register}
    {numQubits numClbits : UInt32} (hquantum : Register.Tiling quantumRegisters numQubits)
    (hclassical : Register.Tiling classicalRegisters numClbits) (hqubits : c.numQubits ≤ numQubits)
    (hclbits : c.numClbits ≤ numClbits) :
    WellFormed { c with quantumRegisters, classicalRegisters, numQubits, numClbits } := by
  refine of_flags (fun kind => ?_) h.id_ne (fun i hi => ?_) h.isParametric_eq fun kind => ?_
  · cases kind with
    | quantum => exact hquantum
    | classical => exact hclassical
  · obtain ⟨spec, hspec⟩ := h.takes i hi
    exact ⟨spec, Instruction.validate_mono hqubits hclbits hspec⟩
  · cases kind with
    | classical => exact h.hasRelay_eq .classical
    | quantum => exact h.hasRelay_eq .quantum

theorem addRegister (h : WellFormed c) {kind : RegisterKind} {base : String} {size : UInt32}
    {e : Extension} (he : c.addRegister kind base size = .ok e) : WellFormed e.circuit := by
  obtain ⟨hfits, hname, hgrown⟩ := addRegister_eq_ok he
  have htiling := (h.tiling kind).append (freeName_not_mem hname) hfits
  have hle : c.size kind ≤ c.size kind + size := by
    rw [UInt32.le_iff_toNat_le, Register.toNat_add hfits]
    exact Nat.le_add_right ..
  rw [hgrown]
  cases kind with
  | quantum => exact h.resized htiling (h.tiling .classical) hle (UInt32.le_refl _)
  | classical => exact h.resized (h.tiling .quantum) htiling (UInt32.le_refl _) hle

theorem addInstruction (h : WellFormed c) {i : Instruction} (hc : c.addInstruction i = .ok c') :
    WellFormed c' := by
  obtain ⟨hi, rfl⟩ := addInstruction_eq_ok.1 hc
  exact h.extended (List.forall_mem_singleton.2 hi)

theorem assignParameters (h : WellFormed c) {values : List Float}
    (hc : c.assignParameters values = .ok c') : WellFormed c' := by
  obtain ⟨is, his, hc⟩ := bind_eq_ok.1 hc
  obtain rfl := Except.ok.inj hc
  obtain ⟨⟨hlen, hfinite⟩, rfl⟩ := Parameters.bind_eq_ok.1 his
  have hrebinds := Parameters.rebinds_assign hlen
  refine of_flags (fun kind => ?_) h.id_ne (fun i' hi' => ?_) ?_ fun kind => ?_
  · cases kind with
    | quantum => exact h.tiling .quantum
    | classical => exact h.tiling .classical
  · obtain ⟨i, hi, hrebound⟩ := Instruction.Rebinds.exists_mem hrebinds hi'
    exact (h.takes i hi).rebinds hrebound hfinite
  · refine h.isParametric_eq.trans (Instruction.Rebinds.any_eq hrebinds ?_).symm
    exact fun _ _ hi => hi.isParametric_eq
  · refine Eq.trans ?_ (Instruction.Rebinds.any_eq hrebinds fun i i' hi => ?_).symm
    · cases kind with
      | classical => exact h.hasRelay_eq .classical
      | quantum => exact h.hasRelay_eq .quantum
    · rw [Instruction.relays, Instruction.relays, hi.relay_eq]

theorem ofSnapshot {s : Snapshot} (hc : Circuit.ofSnapshot s = .ok c) : WellFormed c := by
  obtain ⟨hquantum, hclassical, hid, htakes, rfl⟩ := ofSnapshot_eq_ok.1 hc
  refine extended (of_bare (fun kind => ?_) hid rfl rfl fun kind => ?_) htakes
  · cases kind with
    | quantum => exact hquantum
    | classical => exact hclassical
  · cases kind with
    | classical => rfl
    | quantum => rfl

/-! ### Snapshots -/

/-- A circuit is told by its snapshot. -/
theorem ofSnapshot_snapshot (h : WellFormed c) : Circuit.ofSnapshot c.snapshot = .ok c := by
  refine ofSnapshot_eq_ok.2 ⟨h.tiling .quantum, h.tiling .classical, h.id_ne, h.takes, ?_⟩
  have hclassical : c.hasClassicalRelay = c.instructions.any (·.relays .classical) :=
    h.hasRelay_eq .classical
  have hquantum : c.hasQuantumRelay = c.instructions.any (·.relays .quantum) :=
    h.hasRelay_eq .quantum
  obtain ⟨id, quantumRegisters, classicalRegisters, instructions, numQubits, numClbits, isParametric,
    hasClassicalRelay, hasQuantumRelay⟩ := c
  have hparametric := h.isParametric_eq
  dsimp only at hparametric hclassical hquantum
  simp [Circuit.extended, bare, snapshot, hparametric, hclassical, hquantum]

end WellFormed

end Circuit

namespace Snapshot

variable {s s' rebound : Snapshot}

theorem normalized_withParameters (h : s.normalized = .ok s') {values : List Float}
    (hrebound : s'.withParameters values = .ok rebound) : rebound.normalized = .ok rebound := by
  obtain ⟨c, hc, h⟩ := bind_eq_ok.1 h
  obtain rfl := Except.ok.inj h
  obtain ⟨hfits, rfl⟩ := withParameters_eq_ok.1 hrebound
  have hassign : c.assignParameters values =
      .ok { c with instructions := Parameters.assign values c.instructions } :=
    bind_eq_ok.2 ⟨_, Parameters.bind_of_fits hfits, rfl⟩
  have hwellFormed := (Circuit.WellFormed.ofSnapshot hc).assignParameters hassign
  exact bind_eq_ok.2 ⟨_, hwellFormed.ofSnapshot_snapshot, rfl⟩

theorem normalized_normalized (h : s.normalized = .ok s') : s'.normalized = .ok s' := by
  obtain ⟨c, hc, h⟩ := bind_eq_ok.1 h
  obtain rfl := Except.ok.inj h
  exact bind_eq_ok.2 ⟨c, (Circuit.WellFormed.ofSnapshot hc).ofSnapshot_snapshot, rfl⟩

theorem parametric_of_normalized (h : s.normalized = .ok s') :
    s'.isParametric = true ↔ s'.parameters ≠ [] := by
  obtain ⟨c, hc, h⟩ := bind_eq_ok.1 h
  obtain rfl := Except.ok.inj h
  exact (Circuit.WellFormed.ofSnapshot hc).parametric

end Snapshot

end QuantumRelay
