import QuantumRelay.Circuit.Instruction
import Mathlib.Data.List.Basic

/-!
# What the catalog lists

A name is listed as a row of the table, or it is the name of a unitary row after one of the two stems
(`entry_of_find?`).

Four names of the table are relay ends, and so is every gate made conditional on a relayed bit
(`relay_cases`). A name that starts with the stem of such gates is in no row (`find?_remote`), so its
relay end is known from the stem alone (`relay_remote`).
-/

namespace QuantumRelay.Catalog

def relayNames : List String := ["measure_and_send", "recv", "qsend", "qrecv"]

theorem mem_table_of_lookup {name : String} {s : Spec} (h : table.lookup name = some s) :
    (name, s) ∈ table := by
  obtain ⟨before, after, heq, -⟩ := List.lookup_eq_some_iff.1 h
  rw [heq]
  simp

theorem afterStem?_eq_some_iff {stem name base : String} :
    afterStem? stem name = some base ↔ name = stem ++ base := by
  unfold afterStem?
  simp only [Option.map_eq_some_iff, List.isPrefixOf?_eq_some_iff_append_eq]
  constructor
  · rintro ⟨rest, hrest, rfl⟩
    rw [← String.toList_inj, String.toList_append, String.toList_ofList, hrest]
  · rintro rfl
    exact ⟨base.toList, by rw [String.toList_append], by rw [String.ofList_toList]⟩

theorem afterStem?_of_mem_table : ∀ e ∈ table, afterStem? remoteStem e.1 = none := by decide

theorem relay_of_unitary : ∀ e ∈ table, e.2.unitary = true → e.2.relay = none := by decide

theorem relay_of_mem_table : ∀ e ∈ table, ∀ r, e.2.relay = some r → e.1 ∈ relayNames := by
  simp [table, relayNames, Spec.gate, Spec.ofMatrix, Spec.nonUnitary, Spec.relayEnd]

theorem mem_table_of_findUnitary? {base : String} {gate : Spec} (h : findUnitary? base = some gate) :
    (base, gate) ∈ table ∧ gate.unitary = true := by
  obtain ⟨hrow, hunitary⟩ := Option.filter_eq_some_iff.1 h
  exact ⟨mem_table_of_lookup hrow, hunitary⟩

theorem findUnitary?_relay {base : String} {gate : Spec} (h : findUnitary? base = some gate) :
    gate.relay = none := by
  obtain ⟨hrow, hunitary⟩ := mem_table_of_findUnitary? h
  exact relay_of_unitary _ hrow hunitary

/-- How the catalog comes by the spec of a name. -/
inductive Entry : String → Spec → Prop where
  | row {name : String} {s : Spec} (hrow : (name, s) ∈ table) : Entry name s
  | remote {name base : String} {gate : Spec} (hstem : afterStem? remoteStem name = some base)
      (hrow : (base, gate) ∈ table) (hunitary : gate.unitary = true) : Entry name (remoteOf gate)
  | conditional {name base : String} {gate : Spec} (hremote : afterStem? remoteStem name = none)
      (hstem : afterStem? conditionalStem name = some base) (hrow : (base, gate) ∈ table)
      (hunitary : gate.unitary = true) : Entry name (conditionalOf gate)

theorem entry_of_find? {name : String} {s : Spec} (h : find? name = some s) : Entry name s := by
  unfold find? at h
  split at h
  · next hrow =>
    obtain rfl := Option.some.inj h
    exact .row (mem_table_of_lookup hrow)
  · split at h
    · next hstem =>
      obtain ⟨gate, hgate, rfl⟩ := Option.map_eq_some_iff.1 h
      obtain ⟨hrow, hunitary⟩ := mem_table_of_findUnitary? hgate
      exact .remote hstem hrow hunitary
    · next hremote =>
      split at h
      · next hstem =>
        obtain ⟨gate, hgate, rfl⟩ := Option.map_eq_some_iff.1 h
        obtain ⟨hrow, hunitary⟩ := mem_table_of_findUnitary? hgate
        exact .conditional hremote hstem hrow hunitary
      · cases h

theorem find?_remote {name base : String} (h : afterStem? remoteStem name = some base) :
    find? name = (findUnitary? base).map remoteOf := by
  have hrow : table.lookup name = none := by
    cases hs : table.lookup name with
    | none => rfl
    | some s => 
      have := afterStem?_of_mem_table (name, s) (mem_table_of_lookup hs)
      rw [h] at this
      cases this
  rw [find?, hrow, h]

theorem relay_remote {name base : String} {s : Spec} (hbase : afterStem? remoteStem name = some base)
    (h : find? name = some s) : s.relay = some ⟨.classical, .receive⟩ := by
  rw [find?_remote hbase] at h
  obtain ⟨gate, -, rfl⟩ := Option.map_eq_some_iff.1 h
  rfl

theorem relay_cases {name : String} {s : Spec} {e : Relay} (h : find? name = some s)
    (he : s.relay = some e) :
    name ∈ relayNames ∨ ∃ base, afterStem? remoteStem name = some base := by
  cases entry_of_find? h with
  | row hrow => exact .inl (relay_of_mem_table _ hrow e he)
  | remote hstem hrow hunitary => exact .inr ⟨_, hstem⟩
  | conditional hremote hstem hrow hunitary =>
    rw [conditionalOf, relay_of_unitary _ hrow hunitary] at he
    cases he

def quantumName : RelayRole → String
  | .send => "qsend"
  | .receive => "qrecv"

theorem relay_eq_quantum_iff {name : String} {s : Spec} (h : find? name = some s) (role : RelayRole) :
    s.relay = some ⟨.quantum, role⟩ ↔ name = quantumName role := by
  constructor
  · intro hrelay
    rcases relay_cases h hrelay with hname | ⟨base, hbase⟩
    · have hrow : ∀ name ∈ relayNames, ∀ s, find? name = some s →
          s.relay = some ⟨.quantum, role⟩ → name = quantumName role := by
        cases role <;> decide
      exact hrow name hname s h hrelay
    · rw [relay_remote hbase h] at hrelay
      cases hrelay
  · rintro rfl
    have hrow : ∀ s, find? (quantumName role) = some s → s.relay = some ⟨.quantum, role⟩ := by
      cases role <;> decide
    exact hrow s h

end QuantumRelay.Catalog
