import QuantumRelay.Batch.Resolution
import QuantumRelay.Proofs.Circuit.Snapshot
import QuantumRelay.Proofs.Circuit.Validation
import QuantumRelay.Proofs.KeyMap

/-!
# What a resolved batch is

`Declares` says that a circuit of a batch declares one end of an edge. If a batch is resolved, what is
received is sent (`ofBatch_eq_ok`); without dangling sends what is sent is received as well, and then a
circuit names another one if and only if it is named by it (`names_symm`). A batch that is not
distributed names nobody.
-/

namespace QuantumRelay

variable {batch : List Snapshot} {resolution : Resolution}

def Snapshot.Names (batch : List Snapshot) (a b : String) : Prop :=
  ∃ s ∈ batch, s.id = a ∧ b ∈ s.peers

def Snapshot.Valid (s : Snapshot) : Prop :=
  ∀ i ∈ s.instructions, Circuit.Takes s.numQubits s.numClbits s.id i

namespace Resolution

/-- A circuit of the batch declares an end of an edge. -/
def Declares (role : RelayRole) (batch : List Snapshot) (edge : Edge) : Prop :=
  ∃ s ∈ batch, ∃ i ∈ s.instructions, declaredEdge? role s.id i = some edge

theorem mem_ends_iff {role : RelayRole} {edge : Edge} :
    edge ∈ (ends role batch).map (·.edge) ↔ Declares role batch edge := by
  simp only [ends, endsOf, Declares, List.mem_map, List.mem_flatMap, List.mem_filterMap,
    Option.map_eq_some_iff, Prod.exists]
  constructor
  · rintro ⟨e, ⟨s, hs, i, position, hi, edge, hedge, rfl⟩, rfl⟩
    exact ⟨s, hs, i, List.fst_mem_of_mem_zipIdx hi, hedge⟩
  · rintro ⟨s, hs, i, hi, hedge⟩
    obtain ⟨position, hposition⟩ := List.mem_iff_getElem?.1 hi
    exact ⟨⟨edge, position, i.name⟩, ⟨s, hs, i, position, List.mem_zipIdx_iff_getElem?.2 hposition,
      edge, hedge, rfl⟩, rfl⟩

/-! ### Resolved batches -/

theorem unresolved?_eq_none_iff {ids : List String} {sent : List Edge} {receives : List RelayEnd} :
    unresolved? ids sent receives = none ↔
      ∀ e ∈ receives.map (·.edge), e.source ∈ ids ∧ e ∈ sent := by
  rw [unresolved?, List.findSome?_eq_none_iff, List.forall_mem_map]
  refine forall₂_congr fun e _ => ?_
  rw [Option.map_eq_none_iff, lack?]
  by_cases hsource : e.edge.source ∈ ids
  · by_cases hsent : e.edge ∈ sent
    · simp [hsource, hsent]
    · simp [hsource, hsent]
  · simp [hsource]

theorem dangling_eq_nil_iff {received : List Edge} {sends : List RelayEnd} :
    dangling received sends = [] ↔ ∀ e ∈ sends.map (·.edge), e ∈ received := by
  rw [dangling, List.map_eq_nil_iff, List.filter_eq_nil_iff, List.forall_mem_map]
  refine forall₂_congr fun e _ => ?_
  simp

theorem distinct_eq_nil_iff {l : List Edge} : distinct [] l = [] ↔ l = [] := by
  cases l with
  | nil => simp [distinct]
  | cons e rest => simp [distinct]

/-- A batch is resolved, dangling sends reported, if its circuits are distinct and what it receives is
sent. -/
theorem ofBatch_eq_ok (h : ofBatch .report batch = .ok resolution) :
    (batch.map (·.id)).Nodup ∧
    (∀ edge, Declares .receive batch edge →
      edge.source ∈ batch.map (·.id) ∧ Declares .send batch edge) ∧
    (resolution.danglingSends = [] ↔
      ∀ edge, Declares .send batch edge → Declares .receive batch edge) ∧
    (resolution.isDistributed = false ↔
      ∀ role edge, ¬Declares role batch edge) := by
  unfold ofBatch at h
  dsimp only at h
  split at h
  · cases h
  · next hdistinct =>
    split at h
    · cases h
    · next hresolved =>
      obtain rfl := Except.ok.inj h
      rw [unresolved?_eq_none_iff] at hresolved
      have hreceived (edge : Edge) (hedge : Declares .receive batch edge) :
          edge.source ∈ batch.map (·.id) ∧ Declares .send batch edge := by
        have := hresolved edge (mem_ends_iff.2 hedge)
        rwa [mem_ends_iff] at this
      have hdangling : dangling ((ends .receive batch).map (·.edge)) (ends .send batch) = [] ↔
          ∀ edge, Declares .send batch edge → Declares .receive batch edge := by
        simp only [dangling_eq_nil_iff, mem_ends_iff]
      refine ⟨(Names.firstRepeated?_eq_none_iff.1 hdistinct).1, hreceived, hdangling, ?_⟩
      rw [isDistributed, Bool.or_eq_false_iff, Bool.not_eq_false', Bool.not_eq_false',
        List.isEmpty_iff, List.isEmpty_iff, distinct_eq_nil_iff, hdangling,
        List.eq_nil_iff_forall_not_mem]
      simp only [mem_ends_iff]
      constructor
      · rintro ⟨hno, hall⟩ (_ | _) edge hedge
        · exact hno edge (hall edge hedge)
        · exact hno edge hedge
      · exact fun hno => ⟨hno .receive, fun edge hedge => absurd hedge (hno .send edge)⟩

/-- The relays of a valid batch are the edges that it declares. -/
theorem exists_declares_iff (hvalid : ∀ s ∈ batch, s.Valid) :
    (∃ role edge, Declares role batch edge) ↔
      ∃ s ∈ batch, ∃ i ∈ s.instructions, i.relay.isSome = true := by
  constructor
  · rintro ⟨role, edge, s, hs, i, hi, hedge⟩
    refine ⟨s, hs, i, hi, ?_⟩
    unfold declaredEdge? at hedge
    split at hedge
    · next hrelay _ => rw [hrelay]; rfl
    · cases hedge
  · rintro ⟨s, hs, i, hi, hrelay⟩
    obtain ⟨spec, hspec⟩ := hvalid s hs i hi
    have hpeer : i.peer.isSome = true := (Instruction.peer_of_validate hspec).1.trans hrelay
    obtain ⟨relay, hrelay⟩ := Option.isSome_iff_exists.1 hrelay
    obtain ⟨peer, hpeer⟩ := Option.isSome_iff_exists.1 hpeer
    have hdeclares : ∃ edge, declaredEdge? relay.role s.id i = some edge := by
      rw [declaredEdge?, hrelay, hpeer]
      exact ⟨_, if_pos rfl⟩
    obtain ⟨edge, hedge⟩ := hdeclares
    exact ⟨relay.role, edge, s, hs, i, hi, hedge⟩

theorem isDistributed_iff (h : ofBatch .report batch = .ok resolution)
    (hvalid : ∀ s ∈ batch, s.Valid) : resolution.isDistributed = true ↔
      ∃ s ∈ batch, ∃ i ∈ s.instructions, i.relay.isSome = true := by
  obtain ⟨-, -, -, hnone⟩ := ofBatch_eq_ok h
  rw [← exists_declares_iff hvalid, ← Bool.not_eq_false, hnone]
  simp only [not_forall, not_not]

/-! ### Who names whom -/

/-- In a valid batch a circuit names another one if and only if it declares an end of an edge with
it. -/
theorem names_iff_declares (hvalid : ∀ s ∈ batch, s.Valid) {a b : String} :
    Snapshot.Names batch a b ↔ ∃ kind, Declares .send batch ⟨a, b, kind⟩ ∨
      Declares .receive batch ⟨b, a, kind⟩ := by
  constructor
  · rintro ⟨s, hs, rfl, hb⟩
    obtain ⟨i, hi, hpeer⟩ := List.mem_filterMap.1 hb
    obtain ⟨spec, hspec⟩ := hvalid s hs i hi
    have hrelay := (Instruction.peer_of_validate hspec).1
    rw [hpeer, Option.isSome_some, eq_comm, Option.isSome_iff_exists] at hrelay
    obtain ⟨⟨kind, role⟩, hrelay⟩ := hrelay
    refine ⟨kind, ?_⟩
    cases role with
    | send => exact .inl ⟨s, hs, i, hi, by simp [declaredEdge?, hrelay, hpeer]⟩
    | receive => exact .inr ⟨s, hs, i, hi, by simp [declaredEdge?, hrelay, hpeer]⟩
  · have hpeer {role : RelayRole} {own : String} {i : Instruction} {edge : Edge}
        (h : declaredEdge? role own i = some edge) :
        match role with
        | .send => edge.source = own ∧ i.peer = some edge.sink
        | .receive => edge.sink = own ∧ i.peer = some edge.source := by
      unfold declaredEdge? at h
      split at h
      · next relay peer _ hi =>
        split at h
        · obtain rfl := Option.some.inj h
          cases role with
          | send => exact ⟨rfl, hi⟩
          | receive => exact ⟨rfl, hi⟩
        · cases h
      · cases h
    rintro ⟨kind, ⟨s, hs, i, hi, hedge⟩ | ⟨s, hs, i, hi, hedge⟩⟩
    · exact ⟨s, hs, (hpeer hedge).1.symm, List.mem_filterMap.2 ⟨i, hi, (hpeer hedge).2⟩⟩
    · exact ⟨s, hs, (hpeer hedge).1.symm, List.mem_filterMap.2 ⟨i, hi, (hpeer hedge).2⟩⟩

variable (h : ofBatch .report batch = .ok resolution) (hvalid : ∀ s ∈ batch, s.Valid)

include h hvalid in
/-- Without dangling sends, who is named names back. -/
theorem names_symm (hdangling : resolution.danglingSends = []) {a b : String}
    (hnames : Snapshot.Names batch a b) : Snapshot.Names batch b a := by
  obtain ⟨-, hreceive, hsend, -⟩ := ofBatch_eq_ok h
  rw [names_iff_declares hvalid] at hnames ⊢
  obtain ⟨kind, hedge | hedge⟩ := hnames
  · exact ⟨kind, .inr (hsend.1 hdangling _ hedge)⟩
  · exact ⟨kind, .inl (hreceive _ hedge).2⟩

include h hvalid in
theorem not_names_of_not_distributed (hdistributed : resolution.isDistributed = false)
    {a b : String} : ¬Snapshot.Names batch a b := by
  obtain ⟨-, -, -, hno⟩ := ofBatch_eq_ok h
  rw [names_iff_declares hvalid]
  rintro ⟨kind, hedge | hedge⟩
  · exact hno.1 hdistributed _ _ hedge
  · exact hno.1 hdistributed _ _ hedge

end Resolution

end QuantumRelay
