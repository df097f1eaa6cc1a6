import QuantumRelay.Proofs.Batch.Place

/-!
# What resolving a batch finds

`Resolves` says what a batch comes to in terms of the places of its relay ends alone: the first id that
is repeated, or else the first receive that nothing feeds, or else, if the policy refuses them, the
first send that nothing receives, or else all edges and all dangling sends in the order of their places.
`Resolution.ofBatch` finds exactly this (`ofBatch_eq_iff`), and in whatever order the circuits stand, it
finds the same edges and the same dangling sends.
-/

namespace QuantumRelay

namespace Resolution

variable {batch : List Snapshot}

/-- The source of an edge is in the batch, and sends what the edge says. -/
def Fed (batch : List Snapshot) (edge : Edge) : Prop :=
  edge.source ∈ batch.map (·.id) ∧ Declared .send batch edge

/-- Why an edge is not fed. -/
def Lacks (batch : List Snapshot) (edge : Edge) : RelayFault → Prop
  | .absent => edge.source ∉ batch.map (·.id)
  | .neverSends kind =>
    edge.source ∈ batch.map (·.id) ∧ ¬Declared .send batch edge ∧ kind = edge.kind

/-- The id that is the first to come a second time. -/
def FirstRepeated (ids : List String) (id : String) : Prop :=
  ∃ before after, ids = before ++ id :: after ∧ before.Nodup ∧ id ∈ before

/-- The send at a place that nothing in the batch receives. -/
def DanglingAt (batch : List Snapshot) (place : Place) (d : DanglingSend) : Prop :=
  ∃ e, EndAt .send batch place e ∧ ¬Declared .receive batch e.edge ∧
    d = ⟨e.edge.source, e.position, e.gate, e.edge.sink⟩

/-- The edge whose first receive stands at a place. -/
def EdgeAt (batch : List Snapshot) (place : Place) (edge : Edge) : Prop :=
  ∃ e, IsFirst .receive batch (·.edge = edge) place e

/-- What resolving a batch comes to. -/
inductive Resolves (policy : DanglingPolicy) (batch : List Snapshot) :
    Except CircuitError Resolution → Prop where
  | repeated {id : String} (hid : FirstRepeated (batch.map (·.id)) id) :
    Resolves policy batch (.error (.duplicateCircuit id))
  | unresolved {place : Place} {e : RelayEnd} {lack : RelayFault}
    (hids : (batch.map (·.id)).Nodup)
    (hfirst : IsFirst .receive batch (fun e => ¬Fed batch e.edge) place e)
    (hlack : Lacks batch e.edge lack) :
    Resolves policy batch
      (.error (.unresolvedRelay e.edge.sink e.position e.gate e.edge.source lack))
  | dangling {place : Place} {e : RelayEnd} (hids : (batch.map (·.id)).Nodup)
    (hfed : ∀ edge, Declared .receive batch edge → Fed batch edge) (hpolicy : policy = .refuse)
    (hfirst : IsFirst .send batch (fun e => ¬Declared .receive batch e.edge) place e) :
    Resolves policy batch (.error (.danglingSend e.edge.source e.position e.gate e.edge.sink))
  | resolved {edges : List Edge} {danglingSends : List DanglingSend}
    (hids : (batch.map (·.id)).Nodup)
    (hfed : ∀ edge, Declared .receive batch edge → Fed batch edge)
    (hreceived : policy = .refuse → ∀ edge, Declared .send batch edge → Declared .receive batch edge)
    (hedges : Lists (EdgeAt batch) edges) (hdangling : Lists (DanglingAt batch) danglingSends) :
    Resolves policy batch (.ok ⟨batch.map (·.id), edges, danglingSends⟩)

/-! ### Repeated ids -/

theorem firstRepeated?_eq_some_iff {seen ids : List String} {id : String} :
    Names.firstRepeated? seen ids = some id ↔ ∃ before after, ids = before ++ id :: after ∧
      before.Nodup ∧ (∀ x ∈ before, x ∉ seen) ∧ (id ∈ seen ∨ id ∈ before) := by
  induction ids generalizing seen with
  | nil => simp [Names.firstRepeated?]
  | cons name rest ih =>
    rw [Names.firstRepeated?]
    by_cases hname : name ∈ seen
    · rw [if_pos (List.contains_iff_mem.2 hname), Option.some.injEq]
      constructor
      · rintro rfl
        exact ⟨[], rest, rfl, .nil, List.forall_mem_nil _, .inl hname⟩
      · rintro ⟨before, after, heq, -, hnew, -⟩
        cases before with
        | nil => exact (List.cons.inj heq).1
        | cons x before =>
          obtain ⟨rfl, -⟩ := List.cons.inj heq
          exact absurd hname (hnew name List.mem_cons_self)
    · rw [if_neg (by simpa using hname), ih]
      constructor
      · rintro ⟨before, after, rfl, hnodup, hnew, hid⟩
        refine ⟨name :: before, after, rfl, List.nodup_cons.2 ⟨fun hmem => ?_, hnodup⟩, ?_, ?_⟩
        · exact hnew name hmem List.mem_cons_self
        · exact List.forall_mem_cons.2 ⟨hname, fun x hx hseen =>
            hnew x hx (List.mem_cons_of_mem _ hseen)⟩
        · simpa [or_assoc, or_left_comm] using hid
      · rintro ⟨before, after, heq, hnodup, hnew, hid⟩
        cases before with
        | nil =>
          obtain ⟨rfl, -⟩ := List.cons.inj heq
          exact absurd (hid.resolve_right List.not_mem_nil) hname
        | cons x before =>
          obtain ⟨rfl, rfl⟩ := List.cons.inj heq
          obtain ⟨hx, hnodup⟩ := List.nodup_cons.1 hnodup
          refine ⟨before, after, rfl, hnodup, fun y hy hseen => ?_, ?_⟩
          · rcases List.mem_cons.1 hseen with rfl | hseen
            · exact hx hy
            · exact hnew y (List.mem_cons_of_mem _ hy) hseen
          · simpa [or_assoc, or_left_comm] using hid

theorem firstRepeated_iff {ids : List String} {id : String} :
    Names.firstRepeated? [] ids = some id ↔ FirstRepeated ids id := by
  rw [firstRepeated?_eq_some_iff, FirstRepeated]
  simp

/-! ### Receives -/

theorem lack?_eq_some_iff {e : RelayEnd} {lack : RelayFault} :
    lack? (batch.map (·.id)) ((ends .send batch).map (·.edge)) e = some lack ↔
      Lacks batch e.edge lack := by
  have hmissing {α : Type} [BEq α] [LawfulBEq α] {l : List α} {a : α} :
      (!l.contains a) = true ↔ a ∉ l := by
    rw [Bool.not_eq_true', ← Bool.not_eq_true, List.contains_iff_mem]
  unfold lack?
  by_cases hsource : e.edge.source ∈ batch.map (·.id)
  · rw [if_neg (mt hmissing.1 (not_not.2 hsource))]
    by_cases hsent : Declared .send batch e.edge
    · rw [if_neg (mt hmissing.1 (not_not.2 (mem_edges_iff.2 hsent)))]
      cases lack with
      | absent => simp [Lacks, hsource]
      | neverSends kind => simp [Lacks, hsent]
    · rw [if_pos (hmissing.2 (mt mem_edges_iff.1 hsent))]
      cases lack with
      | absent => simp [Lacks, hsource]
      | neverSends kind => simp [Lacks, hsource, hsent, eq_comm]
  · rw [if_pos (hmissing.2 hsource)]
    cases lack with
    | absent => simp [Lacks, hsource]
    | neverSends kind => simp [Lacks, hsource]

theorem not_fed_iff {edge : Edge} : ¬Fed batch edge ↔ ∃ lack, Lacks batch edge lack := by
  constructor
  · intro h
    by_cases hsource : edge.source ∈ batch.map (·.id)
    · exact ⟨.neverSends edge.kind, hsource, fun hsent => h ⟨hsource, hsent⟩, rfl⟩
    · exact ⟨.absent, hsource⟩
  · rintro ⟨lack, hlack⟩ ⟨hsource, hsent⟩
    cases lack with
    | absent => exact hlack hsource
    | neverSends kind => exact hlack.2.1 hsent

theorem unresolved?_eq_some_iff {error : CircuitError} :
    unresolved? (batch.map (·.id)) ((ends .send batch).map (·.edge)) (ends .receive batch) =
        some error ↔
      ∃ place e lack, IsFirst .receive batch (fun e => ¬Fed batch e.edge) place e ∧
        Lacks batch e.edge lack ∧
        error = .unresolvedRelay e.edge.sink e.position e.gate e.edge.source lack := by
  have hlacking (e : RelayEnd) :
      (lack? (batch.map (·.id)) ((ends .send batch).map (·.edge)) e).map (fun lack =>
        CircuitError.unresolvedRelay e.edge.sink e.position e.gate e.edge.source lack) ≠ none ↔
      ¬Fed batch e.edge := by
    rw [ne_eq, Option.map_eq_none_iff, ← ne_eq, Option.ne_none_iff_exists', not_fed_iff]
    simp only [lack?_eq_some_iff]
  rw [unresolved?, findSome?_ends_eq_some_iff]
  simp only [hlacking, Option.map_eq_some_iff, lack?_eq_some_iff]
  constructor
  · rintro ⟨place, e, hfirst, lack, hlack, rfl⟩
    exact ⟨place, e, lack, hfirst, hlack, rfl⟩
  · rintro ⟨place, e, lack, hfirst, hlack, rfl⟩
    exact ⟨place, e, hfirst, lack, hlack, rfl⟩

theorem unresolved?_eq_none (h : ∀ edge, Declared .receive batch edge → Fed batch edge) :
    unresolved? (batch.map (·.id)) ((ends .send batch).map (·.edge)) (ends .receive batch) =
      none :=
  unresolved?_eq_none_iff.2 fun edge hedge =>
    (h edge (mem_edges_iff.1 hedge)).imp id mem_edges_iff.2

/-! ### Sends -/

theorem danglingAt_unique : Relator.RightUnique (DanglingAt batch) := by
  rintro place _ _ ⟨e, hstands, -, rfl⟩ ⟨e', hstands', -, rfl⟩
  rw [hstands.unique hstands']

theorem not_contains_iff {e : RelayEnd} :
    (!((ends .receive batch).map (·.edge)).contains e.edge) = true ↔
      ¬Declared .receive batch e.edge := by
  rw [Bool.not_eq_true', ← Bool.not_eq_true, List.contains_iff_mem, mem_edges_iff]

theorem lists_dangling (batch : List Snapshot) :
    Lists (DanglingAt batch)
      (dangling ((ends .receive batch).map (·.edge)) (ends .send batch)) := by
  rw [dangling, ← map_placed .send, List.filter_map, List.map_map]
  refine lists_filter (f := fun e => (⟨e.edge.source, e.position, e.gate, e.edge.sink⟩ : DanglingSend))
    fun place d => ?_
  simp only [DanglingAt, Function.comp_apply, not_contains_iff, eq_comm (a := d)]

theorem dangling_eq_nil (h : ∀ edge, Declared .send batch edge → Declared .receive batch edge) :
    dangling ((ends .receive batch).map (·.edge)) (ends .send batch) = [] :=
  dangling_eq_nil_iff.2 fun edge hedge => mem_edges_iff.2 (h edge (mem_edges_iff.1 hedge))

theorem head?_dangling_eq_some_iff {d : DanglingSend} :
    (dangling ((ends .receive batch).map (·.edge)) (ends .send batch)).head? = some d ↔
      ∃ place e, IsFirst .send batch (fun e => ¬Declared .receive batch e.edge) place e ∧
        d = ⟨e.edge.source, e.position, e.gate, e.edge.sink⟩ := by
  have hguard (p : RelayEnd → Bool) (e : RelayEnd) : Option.guard p e ≠ none ↔ p e = true := by
    simp [Option.guard]
  rw [dangling, List.head?_map, List.head?_filter, List.find?_eq_findSome?_guard]
  simp only [Option.map_eq_some_iff, findSome?_ends_eq_some_iff, hguard, not_contains_iff,
    Option.guard_eq_some_iff]
  constructor
  · rintro ⟨_, ⟨place, e, hfirst, rfl, -⟩, rfl⟩
    exact ⟨place, e, hfirst, rfl⟩
  · rintro ⟨place, e, hfirst, rfl⟩
    exact ⟨e, ⟨place, e, hfirst, rfl, hfirst.holds⟩, rfl⟩

/-! ### Edges -/

theorem edgeAt_unique : Relator.RightUnique (EdgeAt batch) := by
  rintro place _ _ ⟨e, h⟩ ⟨e', h'⟩
  exact h.holds.symm.trans ((congrArg _ (h.stands.unique h'.stands)).trans h'.holds)

open scoped Classical in
theorem distinct_eq_filter {l : List (Place × RelayEnd)}
    (hl : l.Pairwise fun a b => a.1.Before b.1) (seen : List Edge) :
    distinct seen (l.map (·.2.edge)) = (l.filter fun x => decide (x.2.edge ∉ seen ∧
      ∀ y ∈ l, y.2.edge = x.2.edge → ¬y.1.Before x.1)).map (·.2.edge) := by
  induction l generalizing seen with
  | nil => rfl
  | cons x rest ih =>
    obtain ⟨hx, hrest⟩ := List.pairwise_cons.1 hl
    -- an end after `x` is the first of its edge if it is so after `x` and its edge is another one
    have hlater (z : Place × RelayEnd) (hz : z ∈ rest) :
        (∀ y ∈ x :: rest, y.2.edge = z.2.edge → ¬y.1.Before z.1) ↔
          z.2.edge ≠ x.2.edge ∧ ∀ y ∈ rest, y.2.edge = z.2.edge → ¬y.1.Before z.1 := by
      rw [List.forall_mem_cons]
      exact and_congr_left fun _ => ⟨fun h heq => h heq.symm (hx z hz), fun h heq =>
        absurd heq.symm h⟩
    rw [List.map_cons, distinct]
    by_cases hseen : x.2.edge ∈ seen
    · rw [if_pos (List.contains_iff_mem.2 hseen), ih hrest, List.filter_cons_of_neg (by simp [hseen])]
      refine congrArg _ (List.filter_congr fun z hz => ?_)
      rw [decide_eq_decide, hlater z hz]
      exact and_congr_right fun hz => ⟨fun h => ⟨fun heq => hz (heq ▸ hseen), h⟩, fun h => h.2⟩
    · have hfirst : ∀ y ∈ x :: rest, y.2.edge = x.2.edge → ¬y.1.Before x.1 :=
        List.forall_mem_cons.2 ⟨fun _ => Place.not_before_self _, fun y hy _ => (hx y hy).asymm⟩
      rw [if_neg (by simpa using hseen), ih hrest,
        List.filter_cons_of_pos (by simpa [hseen] using hfirst), List.map_cons]
      refine congrArg _ (congrArg _ (List.filter_congr fun z hz => ?_))
      rw [decide_eq_decide, hlater z hz, List.mem_cons, not_or, and_assoc, and_left_comm]

theorem lists_distinct (batch : List Snapshot) :
    Lists (EdgeAt batch) (distinct [] ((ends .receive batch).map (·.edge))) := by
  rw [← map_placed .receive, List.map_map]
  have hdistinct := distinct_eq_filter (placed_pairwise .receive batch) []
  rw [show (RelayEnd.edge ∘ fun x : Place × RelayEnd => x.2) = fun x => x.2.edge from rfl, hdistinct]
  refine lists_filter (f := RelayEnd.edge) fun place edge => ?_
  simp only [EdgeAt, List.not_mem_nil, not_false_iff, true_and, decide_eq_true_eq, Prod.forall,
    mem_placed_iff]
  refine exists_congr fun e => ⟨fun h => ?_, ?_⟩
  · obtain rfl := h.holds
    exact ⟨h.stands, h.first, rfl⟩
  · rintro ⟨hstands, hfirst, rfl⟩
    exact ⟨hstands, rfl, hfirst⟩

/-! ### Resolving -/

variable {policy : DanglingPolicy} {resolution : Resolution}

theorem resolves_ofBatch (policy : DanglingPolicy) (batch : List Snapshot) :
    Resolves policy batch (ofBatch policy batch) := by
  unfold ofBatch
  dsimp only
  split
  · next id hid => exact .repeated (firstRepeated_iff.1 hid)
  · next hdistinct =>
    have hids := (Names.firstRepeated?_eq_none_iff.1 hdistinct).1
    split
    · next error herror =>
      obtain ⟨place, e, lack, hfirst, hlack, rfl⟩ := unresolved?_eq_some_iff.1 herror
      exact .unresolved hids hfirst hlack
    · next hresolved =>
      rw [unresolved?_eq_none_iff] at hresolved
      have hfed (edge : Edge) (hedge : Declared .receive batch edge) : Fed batch edge :=
        (hresolved edge (mem_edges_iff.2 hedge)).imp id mem_edges_iff.1
      split
      · next d rest hd =>
        obtain ⟨place, e, hfirst, rfl⟩ := head?_dangling_eq_some_iff.1 (congrArg List.head? hd)
        exact .dangling hids hfed rfl hfirst
      · next hnone =>
        refine .resolved hids hfed (fun hpolicy edge hedge => ?_) (lists_distinct batch)
          (lists_dangling batch)
        have hnil : dangling ((ends .receive batch).map (·.edge)) (ends .send batch) = [] := by
          rw [List.eq_nil_iff_forall_not_mem]
          intro d hmem
          obtain ⟨d, rest, hd⟩ := List.exists_cons_of_ne_nil (List.ne_nil_of_mem hmem)
          exact hnone d rest hpolicy hd
        exact mem_edges_iff.1 (dangling_eq_nil_iff.1 hnil edge (mem_edges_iff.2 hedge))

theorem Resolves.ofBatch_eq {result : Except CircuitError Resolution}
    (h : Resolves policy batch result) : ofBatch policy batch = result := by
  have hdistinct (hids : (batch.map (·.id)).Nodup) :
      Names.firstRepeated? [] (batch.map (·.id)) = none :=
    Names.firstRepeated?_eq_none_iff.2 ⟨hids, fun _ _ => List.not_mem_nil⟩
  unfold ofBatch
  dsimp only
  cases h with
  | repeated hid => rw [firstRepeated_iff.2 hid]
  | unresolved hids hfirst hlack =>
    rw [hdistinct hids, unresolved?_eq_some_iff.2 ⟨_, _, _, hfirst, hlack, rfl⟩]
  | dangling hids hfed hpolicy hfirst =>
    subst hpolicy
    obtain ⟨rest, hrest⟩ := List.head?_eq_some_iff.1
      (head?_dangling_eq_some_iff.2 ⟨_, _, hfirst, rfl⟩)
    rw [hdistinct hids, unresolved?_eq_none hfed, hrest]
  | resolved hids hfed hreceived hedges hdangling =>
    obtain rfl := (lists_distinct batch).unique edgeAt_unique hedges
    obtain rfl := (lists_dangling batch).unique danglingAt_unique hdangling
    rw [hdistinct hids, unresolved?_eq_none hfed]
    cases policy with
    | report => rfl
    | refuse => rw [dangling_eq_nil (hreceived rfl)]

theorem mem_distinct_iff {seen l : List Edge} {edge : Edge} :
    edge ∈ distinct seen l ↔ edge ∈ l ∧ edge ∉ seen := by
  induction l generalizing seen with
  | nil => simp [distinct]
  | cons e rest ih =>
    rw [distinct]
    by_cases he : e ∈ seen
    · rw [if_pos (List.contains_iff_mem.2 he), ih, List.mem_cons]
      refine and_congr_left fun hedge => (or_iff_right ?_).symm
      rintro rfl
      exact hedge he
    · rw [if_neg (by simpa using he), List.mem_cons, ih, List.mem_cons, List.mem_cons, not_or]
      by_cases heq : edge = e
      · subst heq
        simp [he]
      · simp [heq]

theorem distinct_nodup (seen l : List Edge) : (distinct seen l).Nodup := by
  induction l generalizing seen with
  | nil => exact .nil
  | cons e rest ih =>
    rw [distinct]
    split
    · exact ih seen
    · exact List.nodup_cons.2 ⟨fun h => (mem_distinct_iff.1 h).2 List.mem_cons_self, ih _⟩

theorem eq_of_ofBatch_eq_ok (h : ofBatch policy batch = .ok resolution) :
    (batch.map (·.id)).Nodup ∧ (∀ edge, Declared .receive batch edge → Fed batch edge) ∧
      (policy = .refuse → ∀ edge, Declared .send batch edge → Declared .receive batch edge) ∧
      resolution = ⟨batch.map (·.id), distinct [] ((ends .receive batch).map (·.edge)),
        dangling ((ends .receive batch).map (·.edge)) (ends .send batch)⟩ := by
  have hresolves := resolves_ofBatch policy batch
  rw [h] at hresolves
  cases hresolves with
  | resolved hids hfed hreceived hedges hdangling =>
    obtain rfl := (lists_distinct batch).unique edgeAt_unique hedges
    obtain rfl := (lists_dangling batch).unique danglingAt_unique hdangling
    exact ⟨hids, hfed, hreceived, rfl⟩

theorem mem_ids_of_declared {role : RelayRole} {edge : Edge} (h : Declared role batch edge) :
    (match role with | .send => edge.source | .receive => edge.sink) ∈ batch.map (·.id) := by
  obtain ⟨place, _, ⟨s, i, kind, peer, hs, -, -, -, rfl⟩, rfl⟩ := h
  have hmem := List.mem_map_of_mem (f := (·.id)) (List.mem_of_getElem? hs)
  cases role with
  | send => exact hmem
  | receive => exact hmem

/-- What an edge is in the graph: the places of its circuits in the batch, and its kind. -/
def Connects (batch : List Snapshot) (edge : Edge) (n : Nat × Nat × RelayKind) : Prop :=
  (batch[n.1]?.map (·.id)) = some edge.source ∧ (batch[n.2.1]?.map (·.id)) = some edge.sink ∧
    n.2.2 = edge.kind

theorem connects_indexedEdges (h : ofBatch policy batch = .ok resolution) :
    List.Forall₂ (Connects batch) resolution.edges resolution.indexedEdges := by
  obtain ⟨-, hfed, -, rfl⟩ := eq_of_ofBatch_eq_ok h
  have hindex {id : String} (hid : id ∈ batch.map (·.id)) :
      batch[(batch.map (·.id)).idxOf id]?.map (·.id) = some id := by
    rw [← List.getElem?_map]
    exact List.getElem?_idxOf hid
  rw [indexedEdges, List.forall₂_map_right_iff, List.forall₂_same]
  intro edge hedge
  have hreceived : Declared .receive batch edge := mem_edges_iff.1 (mem_distinct_iff.1 hedge).1
  exact ⟨hindex (hfed edge hreceived).1, hindex (mem_ids_of_declared hreceived), rfl⟩

/-- In another order the same edges and the same dangling sends come out. -/
theorem ofBatch_perm {other : List Snapshot} (hperm : other.Perm batch)
    (h : ofBatch policy batch = .ok resolution) :
    ∃ resolution', ofBatch policy other = .ok resolution' ∧
      resolution'.edges.Perm resolution.edges ∧
      resolution'.danglingSends.Perm resolution.danglingSends := by
  obtain ⟨hids, hfed, hreceived, rfl⟩ := eq_of_ofBatch_eq_ok h
  have hends (role : RelayRole) : (ends role other).Perm (ends role batch) := hperm.flatMap_right _
  have hdeclared (role : RelayRole) (edge : Edge) :
      Declared role other edge ↔ Declared role batch edge := by
    rw [← mem_edges_iff, ← mem_edges_iff]
    exact ((hends role).map _).mem_iff
  have hidsPerm := hperm.map (·.id)
  have hfedOther (edge : Edge) (hedge : Declared .receive other edge) : Fed other edge :=
    (hfed edge ((hdeclared ..).1 hedge)).imp hidsPerm.mem_iff.2 (hdeclared ..).2
  have hreceivedOther (hpolicy : policy = .refuse) (edge : Edge) (hedge : Declared .send other edge) :
      Declared .receive other edge :=
    (hdeclared ..).2 (hreceived hpolicy edge ((hdeclared ..).1 hedge))
  refine ⟨_, (Resolves.resolved (hidsPerm.nodup_iff.2 hids) hfedOther hreceivedOther
    (lists_distinct other) (lists_dangling other)).ofBatch_eq, ?_, ?_⟩
  · refine (List.perm_ext_iff_of_nodup (distinct_nodup ..) (distinct_nodup ..)).2 fun edge => ?_
    rw [mem_distinct_iff, mem_distinct_iff, ((hends .receive).map _).mem_iff]
  · refine List.Perm.map _ ?_
    have hcongr (e : RelayEnd) : (!((ends .receive other).map (·.edge)).contains e.edge) =
        !((ends .receive batch).map (·.edge)).contains e.edge := by
      rw [Bool.eq_iff_iff, not_contains_iff, not_contains_iff, hdeclared]
    simp only [hcongr]
    exact (hends .send).filter _

/-! ### Which outcome there is -/

theorem FirstRepeated.not_nodup {ids : List String} {id : String} (h : FirstRepeated ids id) :
    ¬ids.Nodup := by
  obtain ⟨before, after, rfl, -, hmem⟩ := h
  exact fun hids => (List.nodup_append.1 hids).2.2 id hmem id List.mem_cons_self rfl

theorem exists_duplicateCircuit_iff :
    (∃ id, ofBatch policy batch = .error (.duplicateCircuit id)) ↔
      ¬(batch.map (·.id)).Nodup := by
  have hresolves := resolves_ofBatch policy batch
  generalize ofBatch policy batch = result at hresolves ⊢
  cases hresolves with
  | repeated hid => simp [hid.not_nodup]
  | unresolved hids => simp [hids]
  | dangling hids => simp [hids]
  | resolved hids => simp [hids]

theorem exists_unresolvedRelay_iff (hids : (batch.map (·.id)).Nodup) :
    (∃ circuit position gate peer lack,
        ofBatch policy batch = .error (.unresolvedRelay circuit position gate peer lack)) ↔
      ∃ edge, Declared .receive batch edge ∧ ¬Fed batch edge := by
  have hnot (hfed : ∀ edge, Declared .receive batch edge → Fed batch edge) :
      ¬∃ edge, Declared .receive batch edge ∧ ¬Fed batch edge :=
    fun ⟨edge, hedge, hlacks⟩ => hlacks (hfed edge hedge)
  have hresolves := resolves_ofBatch policy batch
  generalize ofBatch policy batch = result at hresolves ⊢
  cases hresolves with
  | repeated hid => exact absurd hids hid.not_nodup
  | unresolved _ hfirst =>
    exact ⟨fun _ => ⟨_, ⟨_, _, hfirst.stands, rfl⟩, hfirst.holds⟩, fun _ => ⟨_, _, _, _, _, rfl⟩⟩
  | dangling _ hfed => simp [hnot hfed]
  | resolved _ hfed => simp [hnot hfed]

theorem exists_danglingSend_iff (hids : (batch.map (·.id)).Nodup)
    (hfed : ∀ edge, Declared .receive batch edge → Fed batch edge) :
    (∃ circuit position gate peer,
        ofBatch policy batch = .error (.danglingSend circuit position gate peer)) ↔
      policy = .refuse ∧ ∃ edge, Declared .send batch edge ∧ ¬Declared .receive batch edge := by
  have hresolves := resolves_ofBatch policy batch
  generalize ofBatch policy batch = result at hresolves ⊢
  cases hresolves with
  | repeated hid => exact absurd hids hid.not_nodup
  | unresolved _ hfirst => exact absurd (hfed _ ⟨_, _, hfirst.stands, rfl⟩) hfirst.holds
  | dangling _ _ hpolicy hfirst =>
    exact ⟨fun _ => ⟨hpolicy, _, ⟨_, _, hfirst.stands, rfl⟩, hfirst.holds⟩,
      fun _ => ⟨_, _, _, _, rfl⟩⟩
  | resolved _ _ hreceived =>
    constructor
    · rintro ⟨_, _, _, _, h⟩
      cases h
    · rintro ⟨hpolicy, edge, hedge, hnot⟩
      exact absurd (hreceived hpolicy edge hedge) hnot

/-- Resolving a batch comes to what the places of its relay ends say: a repeated id if and only if two
circuits share one, or else an unresolved receive if and only if some receive is not fed, or else a
dangling send if and only if the policy refuses them and some send is not received, or else one edge
for everything that is received, and every dangling send. The graph connects the circuits at their
places in the batch, and another order of the circuits gives the same edges and dangling sends. -/
theorem ofBatch_eq_iff (policy : DanglingPolicy) (batch : List Snapshot) :
    (∀ result, ofBatch policy batch = result ↔ Resolves policy batch result) ∧
    ((∃ id, ofBatch policy batch = .error (.duplicateCircuit id)) ↔ ¬(batch.map (·.id)).Nodup) ∧
    ((batch.map (·.id)).Nodup →
      ((∃ circuit position gate peer lack, ofBatch policy batch =
          .error (.unresolvedRelay circuit position gate peer lack)) ↔
        ∃ edge, Declared .receive batch edge ∧ ¬Fed batch edge)) ∧
    ((batch.map (·.id)).Nodup → (∀ edge, Declared .receive batch edge → Fed batch edge) →
      ((∃ circuit position gate peer, ofBatch policy batch =
          .error (.danglingSend circuit position gate peer)) ↔
        policy = .refuse ∧ ∃ edge, Declared .send batch edge ∧ ¬Declared .receive batch edge)) ∧
    ∀ resolution, ofBatch policy batch = .ok resolution →
      resolution.edges.Nodup ∧
      (∀ edge, edge ∈ resolution.edges ↔ Declared .receive batch edge) ∧
      (policy = .refuse → resolution.danglingSends = []) ∧
      List.Forall₂ (Connects batch) resolution.edges resolution.indexedEdges ∧
      ∀ other : List Snapshot, other.Perm batch →
        ∃ resolution', ofBatch policy other = .ok resolution' ∧
          resolution'.edges.Perm resolution.edges ∧
          resolution'.danglingSends.Perm resolution.danglingSends := by
  refine ⟨fun result => ⟨fun h => h ▸ resolves_ofBatch policy batch, fun h => h.ofBatch_eq⟩,
    exists_duplicateCircuit_iff, exists_unresolvedRelay_iff, exists_danglingSend_iff,
    fun resolution h => ?_⟩
  obtain ⟨-, -, hreceived, heq⟩ := eq_of_ofBatch_eq_ok h
  refine ⟨?_, fun edge => ?_, fun hpolicy => ?_, connects_indexedEdges h,
    fun other hperm => ofBatch_perm hperm h⟩
  · rw [heq]
    exact distinct_nodup ..
  · rw [heq, ← mem_edges_iff, mem_distinct_iff]
    simp
  · rw [heq]
    exact dangling_eq_nil (hreceived hpolicy)

/-- Two circuits that receive from one another, and a third one that is sent to and does not receive. -/
def crossed : List Snapshot :=
  [{ id := "a"
     instructions := [{ name := "qsend", qubits := [0], circuits := ["b"] },
       { name := "d_c_if_x", qubits := [0], circuits := ["b"] }]
     numQubits := 1, numClbits := 0, quantumRegisters := [⟨"q", [0]⟩], classicalRegisters := []
     isParametric := false, isDistributed := true },
   { id := "b"
     instructions := [{ name := "qrecv", qubits := [0], circuits := ["a"] },
       { name := "measure_and_send", qubits := [0], circuits := ["c"] },
       { name := "measure_and_send", qubits := [0], circuits := ["a"] }]
     numQubits := 1, numClbits := 0, quantumRegisters := [⟨"q", [0]⟩], classicalRegisters := []
     isParametric := false, isDistributed := true },
   { id := "c", instructions := [], numQubits := 0, numClbits := 0, quantumRegisters := []
     classicalRegisters := [], isParametric := false, isDistributed := false }]

/-- The crossed batch has two edges and a dangling send, from its last circuit to its first as well,
and a strict policy refuses it for that send. -/
theorem crossed_resolved :
    ofBatch .report crossed = .ok ⟨["a", "b", "c"], [⟨"b", "a", .classical⟩, ⟨"a", "b", .quantum⟩],
      [⟨"b", 1, "measure_and_send", "c"⟩]⟩ ∧
    (∃ resolution, ofBatch .report crossed.reverse = .ok resolution ∧
      resolution.edges.Perm [⟨"b", "a", .classical⟩, ⟨"a", "b", .quantum⟩] ∧
      resolution.danglingSends.Perm [⟨"b", 1, "measure_and_send", "c"⟩]) ∧
    (crossed.map (·.id)).Nodup ∧ (∀ edge, Declared .receive crossed edge → Fed crossed edge) ∧
    ∃ edge, Declared .send crossed edge ∧ ¬Declared .receive crossed edge := by
  have hreport : ofBatch .report crossed = .ok ⟨["a", "b", "c"],
      [⟨"b", "a", .classical⟩, ⟨"a", "b", .quantum⟩], [⟨"b", 1, "measure_and_send", "c"⟩]⟩ := by rfl
  have hrefuse : ofBatch .refuse crossed = .error (.danglingSend "b" 1 "measure_and_send" "c") := by
    rfl
  obtain ⟨-, -, -, -, hresolved⟩ := ofBatch_eq_iff .report crossed
  obtain ⟨-, hduplicate, hunresolved, hdangling, -⟩ := ofBatch_eq_iff .refuse crossed
  have hids : (crossed.map (·.id)).Nodup := by decide
  have hfed (edge : Edge) (hedge : Declared .receive crossed edge) : Fed crossed edge := by
    by_contra hnot
    obtain ⟨_, _, _, _, _, h⟩ := (hunresolved hids).2 ⟨edge, hedge, hnot⟩
    rw [hrefuse] at h
    cases h
  obtain ⟨-, -, -, -, hother⟩ := hresolved _ hreport
  exact ⟨hreport, hother _ (List.reverse_perm _), hids, hfed,
    ((hdangling hids hfed).1 ⟨_, _, _, _, hrefuse⟩).2⟩

end Resolution

end QuantumRelay
