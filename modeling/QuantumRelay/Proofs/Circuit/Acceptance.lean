import Mathlib
import QuantumRelay.Proofs.Catalog
import QuantumRelay.Proofs.Circuit.Validation

/-!
# Which instructions are accepted

A name of the catalog is a row of the table in one of three forms: as it is, or, for unitary gates, behind
one of the two stems (`Catalog.find?_eq_some_iff`). `Instruction.Valid` says of an instruction with such a
name what its matrix, indices, parameters and peer have to be, row by row and form by form, and the
checks accept exactly the valid ones (`Instruction.validate_eq_ok_iff_valid`).
-/

namespace QuantumRelay

namespace Catalog

/-- The forms that a gate has in the catalog. -/
inductive Form where
  | plain
  /-- Conditional on a measurement of one more qubit. -/
  | conditional
  /-- Conditional on a relayed bit. -/
  | remote
deriving DecidableEq

namespace Form

def stem : Form → String
  | .plain => ""
  | .conditional => conditionalStem
  | .remote => remoteStem

def specOf : Form → Spec → Spec
  | .plain => id
  | .conditional => conditionalOf
  | .remote => remoteOf

end Form

/-- A name stands for a row of the table in a form. Rows that are not unitary are plain. -/
structure Spells (form : Form) (base : String) (gate : Spec) (name : String) : Prop where
  name_eq : name = form.stem ++ base
  row : (base, gate) ∈ table
  unitary : form ≠ .plain → gate.unitary = true

variable {form : Form} {base name : String} {gate s : Spec}

theorem lookup_of_mem_table : ∀ e ∈ table, table.lookup e.1 = some e.2 := by decide

theorem afterConditionalStem?_of_mem_table :
    ∀ e ∈ table, afterStem? conditionalStem e.1 = none := by decide

theorem arity_of_mem_table : ∀ e ∈ table, if e.1 = unitaryName then e.2.arity = .ofMatrix 0
    else e.2.arity ∈ [.fixed 0, .fixed 1, .fixed 2, .fixed 3] := by decide

theorem relay_isSome_of_mem_table : ∀ e ∈ table, (e.2.relay.isSome = true ↔ e.1 ∈ relayNames) := by
  decide

theorem lookup_eq_none_of_afterStem? {stem : String} (hstem : afterStem? stem name = some base)
    (hrows : ∀ e ∈ table, afterStem? stem e.1 = none) : table.lookup name = none := by
  cases hrow : table.lookup name with
  | none => rfl
  | some s =>
    have hnone := hrows _ (mem_table_of_lookup hrow)
    rw [hstem] at hnone
    cases hnone

theorem afterRemoteStem?_conditional (base : String) :
    afterStem? remoteStem (conditionalStem ++ base) = none := by
  rw [afterStem?, String.toList_append]
  rfl

theorem find?_conditional (base : String) :
    find? (conditionalStem ++ base) = (findUnitary? base).map conditionalOf := by
  have hstem := afterStem?_eq_some_iff.2 (rfl : conditionalStem ++ base = _)
  rw [find?, lookup_eq_none_of_afterStem? hstem afterConditionalStem?_of_mem_table,
    afterRemoteStem?_conditional]
  dsimp only
  rw [hstem]

theorem findUnitary?_of_mem_table (hrow : (base, gate) ∈ table) (hunitary : gate.unitary = true) :
    findUnitary? base = some gate := by
  rw [findUnitary?, lookup_of_mem_table _ hrow, Option.filter_some, if_pos hunitary]

/-- The catalog lists the rows of its table in their forms, and nothing else. -/
theorem find?_eq_some_iff :
    find? name = some s ↔ ∃ form base gate, Spells form base gate name ∧ s = form.specOf gate := by
  constructor
  · intro h
    cases entry_of_find? h with
    | row hrow => exact ⟨.plain, name, s, ⟨String.empty_append.symm, hrow, (absurd rfl ·)⟩, rfl⟩
    | remote hstem hrow hunitary =>
      exact ⟨.remote, _, _, ⟨afterStem?_eq_some_iff.1 hstem, hrow, fun _ => hunitary⟩, rfl⟩
    | conditional _ hstem hrow hunitary =>
      exact ⟨.conditional, _, _, ⟨afterStem?_eq_some_iff.1 hstem, hrow, fun _ => hunitary⟩, rfl⟩
  · rintro ⟨form, base, gate, ⟨rfl, hrow, hunitary⟩, rfl⟩
    cases form with
    | plain =>
      rw [Form.stem, String.empty_append, find?, lookup_of_mem_table _ hrow]
      rfl
    | conditional =>
      rw [Form.stem, find?_conditional, findUnitary?_of_mem_table hrow (hunitary (by decide))]
      rfl
    | remote =>
      rw [Form.stem, find?_remote (afterStem?_eq_some_iff.2 rfl),
        findUnitary?_of_mem_table hrow (hunitary (by decide))]
      rfl

theorem Spells.afterStems (h : Spells form base gate name) :
    afterStem? remoteStem name = (if form = .remote then some base else none) ∧
      afterStem? conditionalStem name = if form = .conditional then some base else none := by
  obtain ⟨rfl, hrow, -⟩ := h
  cases form with
  | plain =>
    rw [Form.stem, String.empty_append]
    exact ⟨afterStem?_of_mem_table _ hrow, afterConditionalStem?_of_mem_table _ hrow⟩
  | conditional => exact ⟨afterRemoteStem?_conditional base, afterStem?_eq_some_iff.2 rfl⟩
  | remote =>
    refine ⟨afterStem?_eq_some_iff.2 rfl, ?_⟩
    rw [Form.stem, afterStem?, String.toList_append]
    rfl

theorem Spells.unique {form' : Form} {base' : String} {gate' : Spec}
    (h : Spells form base gate name) (h' : Spells form' base' gate' name) :
    form = form' ∧ base = base' ∧ gate = gate' := by
  obtain ⟨rfl, rfl⟩ : form = form' ∧ base = base' := by
    obtain ⟨hremote, hconditional⟩ := h.afterStems
    obtain ⟨hremote', hconditional'⟩ := h'.afterStems
    rw [hremote] at hremote'
    rw [hconditional] at hconditional'
    cases form <;> cases form' <;> simp at hremote' hconditional' ⊢
    · simpa [Form.stem] using h.name_eq.symm.trans h'.name_eq
    · exact hconditional'
    · exact hremote'
  refine ⟨rfl, rfl, ?_⟩
  have hlookup := lookup_of_mem_table _ h.row
  rw [lookup_of_mem_table _ h'.row] at hlookup
  exact (Option.some.inj hlookup).symm

theorem find?_nested {outer inner : Form} (houter : outer ≠ .plain) (hinner : inner ≠ .plain)
    (base : String) : find? (outer.stem ++ (inner.stem ++ base)) = none := by
  have hunitary : findUnitary? (inner.stem ++ base) = none := by
    have hlookup : table.lookup (inner.stem ++ base) = none := by
      cases inner with
      | plain => exact absurd rfl hinner
      | conditional =>
        exact lookup_eq_none_of_afterStem? (afterStem?_eq_some_iff.2 rfl)
          afterConditionalStem?_of_mem_table
      | remote =>
        exact lookup_eq_none_of_afterStem? (afterStem?_eq_some_iff.2 rfl) afterStem?_of_mem_table
    rw [findUnitary?, hlookup]
    rfl
  cases outer with
  | plain => exact absurd rfl houter
  | conditional => rw [Form.stem, find?_conditional, hunitary]; rfl
  | remote => rw [Form.stem, find?_remote (afterStem?_eq_some_iff.2 rfl), hunitary]; rfl

end Catalog

/-- A matrix acts on `k` qubits: it is square, with `2 ^ k` rows. -/
structure Matrix.ActsOn (m : Matrix) (k : Nat) : Prop where
  pos : 1 ≤ k
  rows : m.length = 2 ^ k
  square : ∀ row ∈ m, row.length = 2 ^ k

theorem Matrix.qubits_eq_ok {m : Matrix} {k : Nat} : m.qubits = .ok k ↔ m.ActsOn k := by
  constructor
  · intro h
    obtain ⟨hrows, hsquare⟩ := eq_of_qubits h
    refine ⟨?_, hrows, fun row hrow => (hsquare row hrow).trans hrows⟩
    by_contra hk
    obtain rfl : k = 0 := by omega
    rw [qubits, if_pos (by simp [hrows])] at h
    cases h
  · rintro ⟨hpos, hrows, hsquare⟩
    have htwo : 2 ≤ 2 ^ k := Nat.le_self_pow (by omega) 2
    have hlog : m.length.log2 = k := by rw [hrows, Nat.log2_two_pow]
    have hside : ¬(decide (m.length < 2) || !isPowerOfTwo m.length) = true := by
      simp [isPowerOfTwo, hrows, Nat.log2_two_pow]
      omega
    have hfind : (m.findIdx? fun row => row.length ≠ m.length) = none := by
      simpa [List.findIdx?_eq_none_iff, hrows] using hsquare
    rw [qubits, if_neg hside, hfind, hlog]

namespace Instruction

open Catalog (Form Spells)

/-- How many qubits a form of a gate takes with a matrix or without one, controls included. -/
def Takes (form : Form) (base : String) (gate : Spec) (matrix : Option Matrix) (count : Nat) : Prop :=
  if base = Catalog.unitaryName then
    ∃ m k, matrix = some m ∧ m.ActsOn k ∧ count = k + if form = .plain then 0 else 1
  else
    matrix = none ∧ ∃ q, gate.arity = .fixed q ∧
      count = q.toNat + if form = .conditional then 1 else 0

/-- Whether a form of a gate relays: the four relay ends do, and whatever is conditional on a relayed
bit. -/
def Relays (form : Form) (base : String) : Prop := form = .remote ∨ base ∈ Catalog.relayNames

/-- What an instruction has to be that stands for a row of the table in a form, to join the circuit
`owner` with so many qubits and classical bits. -/
structure Valid (i : Instruction) (numQubits numClbits : UInt32) (owner : String) (form : Form)
    (base : String) (gate : Spec) : Prop where
  name : Spells form base gate i.name
  takes : Takes form base gate i.matrix i.qubits.length
  qubits_nodup : i.qubits.Nodup
  qubits_lt : ∀ q ∈ i.qubits, q < numQubits
  clbits_length : i.clbits.length = gate.clbits.toNat
  clbits_nodup : i.clbits.Nodup
  clbits_lt : ∀ b ∈ i.clbits, b < numClbits
  params_length : i.params.length = gate.params.toNat
  params_finite : ∀ p ∈ i.params, p.isFinite = true
  /-- A relay names one circuit, which has a name and is another one. -/
  relays : Relays form base → ∃ peer, i.circuits = [peer] ∧ peer ≠ "" ∧ peer ≠ owner
  alone : ¬Relays form base → i.circuits = []

variable {form : Form} {base : String} {gate s : Spec} {i : Instruction}
  {numQubits numClbits : UInt32} {owner : String}

theorem arity_specOf_fixed {q : UInt32} (h : gate.arity = .fixed q) (form : Form) :
    (form.specOf gate).arity = .fixed (q + if form = .conditional then 1 else 0) := by
  cases form with
  | plain => exact h.trans (by simp)
  | conditional => simp [Form.specOf, Catalog.conditionalOf, h, Arity.plus]
  | remote => simp [Form.specOf, Catalog.remoteOf, h]

theorem arity_specOf_ofMatrix (h : gate.arity = .ofMatrix 0) (form : Form) :
    (form.specOf gate).arity = .ofMatrix (if form = .plain then 0 else 1) := by
  cases form with
  | plain => exact h
  | conditional => simp [Form.specOf, Catalog.conditionalOf, h, Arity.plus]
  | remote => simp [Form.specOf, Catalog.remoteOf, h]

theorem toNat_ofNat_add {k : Nat} {extra : UInt32} (h : k + extra.toNat < UInt32.size) :
    (UInt32.ofNat k + extra).toNat = k + extra.toNat := by
  have hsize : UInt32.size = 2 ^ 32 := rfl
  simp only [UInt32.toNat_add, UInt32.toNat_ofNat']
  omega

theorem exists_qubitArity_iff {name label : String} (h : Spells form base gate name)
    {matrix : Option Matrix} {count : Nat} :
    (∃ arity, (form.specOf gate).qubitArity label matrix = .ok arity ∧ count = arity.toNat) ↔
      Takes form base gate matrix count ∧ count < UInt32.size := by
  have harity := Catalog.arity_of_mem_table _ h.row
  dsimp only at harity
  unfold Takes
  split at harity
  · next hbase =>
    have hextra : (if form = .plain then 0 else 1 : UInt32).toNat = if form = .plain then 0 else 1 := by
      split <;> rfl
    rw [if_pos hbase]
    simp only [Spec.qubitArity_ofMatrix (arity_specOf_ofMatrix harity form), Matrix.qubits_eq_ok]
    constructor
    · rintro ⟨_, ⟨m, k, hm, hk, hlt, rfl⟩, rfl⟩
      exact ⟨⟨m, k, hm, hk, hextra ▸ toNat_ofNat_add hlt⟩, UInt32.toNat_lt _⟩
    · rintro ⟨⟨m, k, hm, hk, rfl⟩, hlt⟩
      rw [← hextra] at hlt ⊢
      exact ⟨_, ⟨m, k, hm, hk, hlt, rfl⟩, (toNat_ofNat_add hlt).symm⟩
  · next hbase =>
    obtain ⟨q, hq, hsmall⟩ : ∃ q, gate.arity = .fixed q ∧ q.toNat ≤ 3 := by
      simp only [List.mem_cons, List.not_mem_nil, or_false] at harity
      rcases harity with h | h | h | h <;> exact ⟨_, h, by decide⟩
    have hsum : (q + if form = .conditional then 1 else 0).toNat =
        q.toNat + if form = .conditional then 1 else 0 := by
      split <;> simp only [UInt32.toNat_add, UInt32.toNat_ofNat] <;> omega
    rw [if_neg hbase]
    simp only [Spec.qubitArity_fixed (arity_specOf_fixed hq form)]
    constructor
    · rintro ⟨_, ⟨hm, rfl⟩, rfl⟩
      exact ⟨⟨hm, q, hq, hsum⟩, UInt32.toNat_lt _⟩
    · rintro ⟨⟨hm, q', hq', rfl⟩, -⟩
      obtain rfl : q = q' := Arity.fixed.inj (hq.symm.trans hq')
      exact ⟨_, ⟨hm, rfl⟩, hsum.symm⟩

theorem length_lt_of_nodup {indices : List UInt32} (hnodup : indices.Nodup)
    (hlt : ∀ q ∈ indices, q < numQubits) : indices.length < UInt32.size := by
  have hmapped : (indices.map UInt32.toNat).Nodup :=
    hnodup.map fun _ _ h => UInt32.toNat_inj.1 h
  have hrange : indices.map UInt32.toNat ⊆ List.range numQubits.toNat := by
    intro n hn
    obtain ⟨q, hq, rfl⟩ := List.mem_map.1 hn
    exact List.mem_range.2 (UInt32.lt_iff_toNat_lt.1 (hlt q hq))
  have hle := (hmapped.subperm hrange).length_le
  rw [List.length_map, List.length_range] at hle
  exact hle.trans_lt numQubits.toNat_lt

theorem relay_specOf_isSome_iff {name : String} (h : Spells form base gate name) :
    (form.specOf gate).relay.isSome = true ↔ Relays form base := by
  have hrow := Catalog.relay_isSome_of_mem_table _ h.row
  unfold Relays
  cases form with
  | plain => simpa [Form.specOf] using hrow
  | conditional => simpa [Form.specOf, Catalog.conditionalOf] using hrow
  | remote => simp [Form.specOf, Catalog.remoteOf]

theorem badPeers?_specOf_eq_none_iff {name : String} (h : Spells form base gate name)
    {circuits : List String} : badPeers? (form.specOf gate) owner circuits = none ↔
      (Relays form base → ∃ peer, circuits = [peer] ∧ peer ≠ "" ∧ peer ≠ owner) ∧
      (¬Relays form base → circuits = []) := by
  rw [badPeers?_eq_none_iff, ← relay_specOf_isSome_iff h]
  split
  · next hrelays => simp [hrelays]
  · next hrelays => simp [hrelays]

theorem clbits_specOf (form : Form) (gate : Spec) : (form.specOf gate).clbits = gate.clbits := by
  cases form <;> rfl

theorem params_specOf (form : Form) (gate : Spec) : (form.specOf gate).params = gate.params := by
  cases form <;> rfl

/-- The checks accept the valid instructions, and give the spec that the catalog has for them. -/
theorem validate_eq_ok_iff_valid : i.validate numQubits numClbits owner = .ok s ↔
    ∃ form base gate, i.Valid numQubits numClbits owner form base gate ∧ s = form.specOf gate := by
  rw [validate_eq_ok, Catalog.find?_eq_some_iff]
  simp only [badIndices?_eq_none_iff, badParams?_eq_none_iff]
  constructor
  · rintro ⟨⟨form, base, gate, hname, rfl⟩, ⟨arity, harity, hcount, hqubits, hqubitsLt⟩,
      ⟨hclbits, hclbitsNodup, hclbitsLt⟩, ⟨hparams, hfinite⟩, hpeers⟩
    obtain ⟨hrelays, halone⟩ := (badPeers?_specOf_eq_none_iff hname).1 hpeers
    exact ⟨form, base, gate, {
      name := hname
      takes := ((exists_qubitArity_iff hname).1 ⟨arity, harity, hcount⟩).1
      qubits_nodup := hqubits
      qubits_lt := hqubitsLt
      clbits_length := hclbits.trans (by rw [clbits_specOf])
      clbits_nodup := hclbitsNodup
      clbits_lt := hclbitsLt
      params_length := hparams.trans (by rw [params_specOf])
      params_finite := hfinite
      relays := hrelays
      alone := halone }, rfl⟩
  · rintro ⟨form, base, gate, h, rfl⟩
    have hcount := length_lt_of_nodup h.qubits_nodup h.qubits_lt
    obtain ⟨arity, harity, hlength⟩ := (exists_qubitArity_iff h.name).2 ⟨h.takes, hcount⟩
    exact ⟨⟨form, base, gate, h.name, rfl⟩,
      ⟨arity, harity, hlength, h.qubits_nodup, h.qubits_lt⟩,
      ⟨by rw [clbits_specOf, h.clbits_length], h.clbits_nodup, h.clbits_lt⟩,
      ⟨by rw [params_specOf, h.params_length], h.params_finite⟩,
      (badPeers?_specOf_eq_none_iff h.name).2 ⟨h.relays, h.alone⟩⟩

/-- An instruction is accepted if and only if it is valid, in the one way in which its name can be read.
It stays accepted when the circuit gets more qubits or classical bits, and it is unknown if its name has
two stems. -/
theorem accepted_iff_valid (i : Instruction) (numQubits numClbits : UInt32) (owner : String) :
    ((∃ s, i.validate numQubits numClbits owner = .ok s) ↔
      ∃ form base gate, i.Valid numQubits numClbits owner form base gate ∧
        ∀ form' base' gate', Spells form' base' gate' i.name →
          form' = form ∧ base' = base ∧ gate' = gate) ∧
    (∀ moreQubits moreClbits, numQubits ≤ moreQubits → numClbits ≤ moreClbits → ∀ s,
      i.validate numQubits numClbits owner = .ok s → i.validate moreQubits moreClbits owner = .ok s) ∧
    ∀ (outer inner : Form) (base : String), outer ≠ .plain → inner ≠ .plain →
      i.name = outer.stem ++ (inner.stem ++ base) →
        i.validate numQubits numClbits owner = .error (.unknownGate i.name) := by
  refine ⟨?_, fun _ _ hqubits hclbits s => validate_mono hqubits hclbits, ?_⟩
  · constructor
    · rintro ⟨s, h⟩
      obtain ⟨form, base, gate, hvalid, -⟩ := validate_eq_ok_iff_valid.1 h
      exact ⟨form, base, gate, hvalid, fun _ _ _ h' => h'.unique hvalid.name⟩
    · rintro ⟨form, base, gate, hvalid, -⟩
      exact ⟨_, validate_eq_ok_iff_valid.2 ⟨form, base, gate, hvalid, rfl⟩⟩
  · intro outer inner base houter hinner hname
    rw [validate, Catalog.lookup, hname, Catalog.find?_nested houter hinner]
    rfl

/-- A matrix gate that waits for a bit from another circuit, its control first. -/
def remoteFlip : Instruction where
  name := "d_c_if_unitary"
  qubits := [1, 0]
  matrix := some [[0, 1], [1, 0]]
  circuits := ["far"]

/-- It takes two qubits, so a circuit of two accepts it and larger ones do. -/
theorem remoteFlip_accepted :
    (∃ s, remoteFlip.validate 2 0 "near" = .ok s) ∧
    (∃ form base gate, remoteFlip.Valid 2 0 "near" form base gate) ∧
    (remoteFlip.validate 7 3 "near").isOk = true ∧
    (remoteFlip.validate 1 0 "near").isOk = false := by
  have haccepted : remoteFlip.validate 2 0 "near" = .ok (Catalog.remoteOf .ofMatrix) := rfl
  obtain ⟨hiff, hmore, -⟩ := accepted_iff_valid remoteFlip 2 0 "near"
  obtain ⟨form, base, gate, hvalid, -⟩ := hiff.1 ⟨_, haccepted⟩
  refine ⟨⟨_, haccepted⟩, ⟨form, base, gate, hvalid⟩, ?_, rfl⟩
  rw [hmore 7 3 (by decide) (by decide) _ haccepted]
  rfl

end Instruction

end QuantumRelay
