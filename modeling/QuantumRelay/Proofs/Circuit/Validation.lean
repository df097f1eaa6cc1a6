import QuantumRelay.Circuit.Validation
import QuantumRelay.Proofs.Fallible

/-!
# What a valid instruction is

`validate_eq_ok` lists the rules that an instruction keeps if it may join a circuit. The rule for
peers is spelled out by `badPeers?_eq_none_iff`: a relay end names one circuit, which is not its own,
and any other instruction names none (`peer_of_validate`). How many qubits there are is fixed or told by
the matrix (`qubitArity_fixed`, `qubitArity_ofMatrix`). Indices are as many as they should be, distinct
and in range (`badIndices?_eq_none_iff`), parameters as many as they should be and finite
(`badParams?_eq_none_iff`), so a circuit that grows goes on taking what it took (`validate_mono`).
-/

namespace QuantumRelay

theorem Catalog.lookup_eq_ok {name : String} {s : Spec} :
    Catalog.lookup name = .ok s ↔ Catalog.find? name = some s := by
  unfold Catalog.lookup
  cases Catalog.find? name <;> simp

theorem Matrix.eq_of_qubits {m : Matrix} {n : Nat} (h : m.qubits = .ok n) :
    m.length = Nat.pow 2 n ∧ ∀ row ∈ m, row.length = m.length := by
  unfold Matrix.qubits at h
  split at h
  · cases h
  · next hside =>
    split at h
    · cases h
    · next hrows =>
      obtain rfl := Except.ok.inj h
      simp only [isPowerOfTwo, Bool.or_eq_true, not_or, Bool.not_eq_true', Bool.not_eq_false,
        beq_iff_eq] at hside
      exact ⟨hside.2, by simpa [List.findIdx?_eq_none_iff] using hrows⟩

namespace Spec

variable {s : Spec} {label : String} {m : Option Matrix} {arity : UInt32}

theorem qubitArity_fixed {q : UInt32} (hs : s.arity = .fixed q) :
    s.qubitArity label m = .ok arity ↔ m = none ∧ arity = q := by
  unfold qubitArity
  rw [hs]
  cases m <;> simp [eq_comm]

theorem qubitArity_ofMatrix {extra : UInt32} (hs : s.arity = .ofMatrix extra) :
    s.qubitArity label m = .ok arity ↔ ∃ rows n, m = some rows ∧ rows.qubits = .ok n ∧
      n + extra.toNat < UInt32.size ∧ arity = UInt32.ofNat n + extra := by
  unfold qubitArity
  rw [hs]
  cases m with
  | none => simp
  | some rows =>
    cases hrows : rows.qubits with
    | error fault => simp [hrows]
    | ok n =>
      by_cases hsize : UInt32.size ≤ n + extra.toNat
      · simp [hrows, hsize, Nat.not_lt.2 hsize]
      · simp [hrows, hsize, Nat.not_le.1 hsize, eq_comm]

end Spec

namespace Instruction

theorem badPeers?_eq_none_iff {s : Spec} {owner : String} {circuits : List String} :
    badPeers? s owner circuits = none ↔
      if s.relay.isSome then ∃ peer, circuits = [peer] ∧ peer ≠ "" ∧ peer ≠ owner
      else circuits = [] := by
  unfold badPeers?
  match s.relay, circuits with
  | none, [] => simp
  | none, _ :: _ => simp
  | some _, [] => simp
  | some _, [peer] =>
    by_cases hempty : peer = ""
    · simp [hempty]
    · by_cases howner : peer = owner
      · subst howner
        simp [hempty]
      · simp [hempty, howner]
  | some _, _ :: _ :: _ => simp

variable {i : Instruction} {numQubits numClbits : UInt32} {owner : String} {s : Spec}

/-- An instruction may join a circuit if it keeps all rules. -/
theorem validate_eq_ok :
    i.validate numQubits numClbits owner = .ok s ↔
      Catalog.find? i.name = some s ∧
      (∃ arity, s.qubitArity i.name i.matrix = .ok arity ∧
        badIndices? numQubits arity .qubitCount (.qubitOutOfRange · numQubits) .duplicateQubit
          i.qubits = none) ∧
      badIndices? numClbits s.clbits .clbitCount (.clbitOutOfRange · numClbits) .duplicateClbit
        i.clbits = none ∧
      badParams? s i.params = none ∧ badPeers? s owner i.circuits = none := by
  unfold validate
  simp only [bind_eq_ok, Catalog.lookup_eq_ok]
  constructor
  · rintro ⟨s', hs', arity, harity, h⟩
    split at h
    · cases h
    · next hnone =>
      obtain rfl := Except.ok.inj h
      simp only [Option.or_eq_none_iff] at hnone
      obtain ⟨⟨⟨hqubits, hclbits⟩, hparams⟩, hpeers⟩ := hnone
      exact ⟨hs', ⟨arity, harity, hqubits⟩, hclbits, hparams, hpeers⟩
  · rintro ⟨hs, ⟨arity, harity, hqubits⟩, hclbits, hparams, hpeers⟩
    refine ⟨s, hs, arity, harity, ?_⟩
    rw [hqubits, hclbits, hparams, hpeers]
    rfl

theorem relay_of_validate (h : i.validate numQubits numClbits owner = .ok s) :
    i.relay = s.relay := by
  rw [relay, (validate_eq_ok.1 h).1, Option.bind_some]

theorem badIndex?_eq_none_iff {available : UInt32} {outOfRange twice : UInt32 → Malformed}
    {seen indices : List UInt32} : badIndex? available outOfRange twice seen indices = none ↔
      (∀ q ∈ indices, q < available) ∧ indices.Nodup ∧ ∀ q ∈ indices, q ∉ seen := by
  induction indices generalizing seen with
  | nil => simp [badIndex?]
  | cons q rest ih =>
    rw [badIndex?, List.forall_mem_cons, List.forall_mem_cons, List.nodup_cons]
    split
    · next h => simp [UInt32.not_lt.2 h]
    · next h =>
      rw [UInt32.not_le] at h
      split
      · next hseen => simp [List.contains_iff_mem.1 hseen]
      · next hseen =>
        rw [List.contains_iff_mem] at hseen
        rw [ih]
        simp only [List.mem_cons, not_or]
        constructor
        · rintro ⟨hrange, hnodup, hnew⟩
          exact ⟨⟨h, hrange⟩, ⟨fun hq => (hnew q hq).1 rfl, hnodup⟩, hseen, fun x hx => (hnew x hx).2⟩
        · rintro ⟨⟨-, hrange⟩, ⟨hq, hnodup⟩, -, hnew⟩
          exact ⟨hrange, hnodup, fun x hx => ⟨fun heq => hq (heq ▸ hx), hnew x hx⟩⟩

theorem badIndices?_eq_none_iff {available expected : UInt32} {count : UInt32 → Nat → Malformed}
    {outOfRange twice : UInt32 → Malformed} {indices : List UInt32} :
    badIndices? available expected count outOfRange twice indices = none ↔
      indices.length = expected.toNat ∧ indices.Nodup ∧ ∀ q ∈ indices, q < available := by
  unfold badIndices?
  split
  · next h => simp [h]
  · next h =>
    rw [badIndex?_eq_none_iff]
    simp only [Decidable.not_not.1 h, true_and, List.not_mem_nil, not_false_iff, implies_true,
      and_true]
    exact and_comm

theorem badParams?_eq_none_iff {s : Spec} {params : List Float} : badParams? s params = none ↔
    params.length = s.params.toNat ∧ ∀ p ∈ params, p.isFinite = true := by
  have hfinite : ((params.findIdx? fun (p : Float) => !p.isFinite).map
      Malformed.nonFiniteParameter = none) ↔ ∀ p ∈ params, p.isFinite = true := by
    simp [List.findIdx?_eq_none_iff]
  unfold badParams? Spec.paramArity?
  rw [Option.or_eq_none_iff, hfinite]
  refine and_congr_left fun _ => ?_
  by_cases hparams : 0 < s.params
  · have hpos : 0 < s.params.toNat := hparams
    rw [if_pos hparams]
    cases params with
    | nil => simp [Nat.ne_of_lt hpos]
    | cons p ps => simp
  · have hzero : s.params = 0 := UInt32.le_zero_iff.1 (UInt32.not_lt.1 hparams)
    rw [if_neg hparams, hzero]
    cases params with
    | nil => simp
    | cons p ps => simp

theorem validate_mono {moreQubits moreClbits : UInt32} (hqubits : numQubits ≤ moreQubits)
    (hclbits : numClbits ≤ moreClbits) (h : i.validate numQubits numClbits owner = .ok s) :
    i.validate moreQubits moreClbits owner = .ok s := by
  simp only [validate_eq_ok, badIndices?_eq_none_iff] at h ⊢
  obtain ⟨hs, ⟨arity, harity, hcount, hnodup, hrange⟩, ⟨hclcount, hclnodup, hclrange⟩, hrest⟩ := h
  exact ⟨hs, ⟨arity, harity, hcount, hnodup, fun q hq => UInt32.lt_of_lt_of_le (hrange q hq) hqubits⟩,
    ⟨hclcount, hclnodup, fun q hq => UInt32.lt_of_lt_of_le (hclrange q hq) hclbits⟩, hrest⟩

theorem peer_of_validate (h : i.validate numQubits numClbits owner = .ok s) :
    i.peer.isSome = i.relay.isSome ∧ i.circuits = i.peer.toList ∧
      ∀ p, i.peer = some p → p ≠ owner := by
  have hpeers := badPeers?_eq_none_iff.1 (validate_eq_ok.1 h).2.2.2.2
  rw [relay_of_validate h, peer]
  split at hpeers
  · next hrelay =>
    obtain ⟨p, hp, -, howner⟩ := hpeers
    simpa [hp, hrelay] using howner
  · next hrelay => simp [hpeers, hrelay]

end Instruction

end QuantumRelay
