import QuantumRelay.Proofs.Batch.Resolution
import QuantumRelay.Proofs.Catalog
import Mathlib.Data.List.Forall2

/-!
# Where the relay ends of a batch stand

A place of a batch is a circuit and a position among its instructions. What ends of relays stand there
is told by the names of instructions alone (`EndAt`), and the ends that `Resolution.ends` collects are
these, in the order of their places (`mem_placed_iff`, `placed_pairwise`). So a search among them finds
the first one (`findSome?_ends_eq_some_iff`), and a choice of them is a list in the order of places
(`lists_filter`), of which there is only one (`Lists.unique`).
-/

namespace QuantumRelay

/-! ### Ends by name -/

/-- Which instructions are ends of relays, told by their names. -/
def Instruction.IsEnd (i : Instruction) : RelayRole → RelayKind → Prop
  | .send, .classical => i.name = "measure_and_send"
  | .send, .quantum => i.name = "qsend"
  | .receive, .classical =>
    i.name = "recv" ∨ ∃ base ∈ Catalog.unitaryNames, i.name = Catalog.remoteStem ++ base
  | .receive, .quantum => i.name = "qrecv"

namespace Catalog

theorem findUnitary?_isSome_iff {base : String} :
    (findUnitary? base).isSome = true ↔ base ∈ unitaryNames := by
  constructor
  · intro h
    obtain ⟨s, hs⟩ := Option.isSome_iff_exists.1 h
    obtain ⟨hrow, hunitary⟩ := Option.filter_eq_some_iff.1 hs
    exact List.mem_map.2 ⟨_, List.mem_filter.2 ⟨mem_table_of_lookup hrow, hunitary⟩, rfl⟩
  · have hall : ∀ base ∈ unitaryNames, (findUnitary? base).isSome = true := by decide
    exact hall base

end Catalog

namespace Instruction

variable {i : Instruction}

theorem relay_of_lookup {r : Relay} (h : (Catalog.table.lookup i.name).bind (·.relay) = some r) :
    i.IsEnd r.role r.kind := by
  have hrows : ∀ e ∈ Catalog.table, ∀ r, e.2.relay = some r →
      (e.1, r) ∈ [("measure_and_send", ⟨.classical, .send⟩), ("recv", ⟨.classical, .receive⟩),
        ("qsend", ⟨.quantum, .send⟩), ("qrecv", (⟨.quantum, .receive⟩ : Relay))] := by
    simp [Catalog.table, Spec.gate, Spec.ofMatrix, Spec.nonUnitary, Spec.relayEnd]
  obtain ⟨s, hs, hr⟩ := Option.bind_eq_some_iff.1 h
  have hrow := hrows _ (Catalog.mem_table_of_lookup hs) r hr
  simp only [List.mem_cons, Prod.mk.injEq, List.not_mem_nil, or_false] at hrow
  rcases hrow with ⟨hname, rfl⟩ | ⟨hname, rfl⟩ | ⟨hname, rfl⟩ | ⟨hname, rfl⟩
  · exact hname
  · exact .inl hname
  · exact hname
  · exact hname

theorem relay_eq_some_iff {role : RelayRole} {kind : RelayKind} :
    i.relay = some ⟨kind, role⟩ ↔ i.IsEnd role kind := by
  have hremote {base : String} (hbase : Catalog.afterStem? Catalog.remoteStem i.name = some base) :
      i.relay = ((Catalog.findUnitary? base).map Catalog.remoteOf).bind (·.relay) := by
    rw [relay, Catalog.find?_remote hbase]
  constructor
  · intro h
    rw [relay, Catalog.find?] at h
    split at h
    · next s hs => exact relay_of_lookup (by rw [hs]; exact h)
    · split at h
      · next base hbase =>
        obtain ⟨_, hs, hrelay⟩ := Option.bind_eq_some_iff.1 h
        obtain ⟨s, hbare, rfl⟩ := Option.map_eq_some_iff.1 hs
        obtain ⟨rfl, rfl⟩ := Relay.mk.inj (Option.some.inj hrelay)
        have hunitary : base ∈ Catalog.unitaryNames :=
          Catalog.findUnitary?_isSome_iff.1 (Option.isSome_of_eq_some hbare)
        exact .inr ⟨base, hunitary, Catalog.afterStem?_eq_some_iff.1 hbase⟩
      · split at h
        · obtain ⟨_, hs, hrelay⟩ := Option.bind_eq_some_iff.1 h
          obtain ⟨s, hbare, rfl⟩ := Option.map_eq_some_iff.1 hs
          rw [Catalog.conditionalOf, Catalog.findUnitary?_relay hbare] at hrelay
          cases hrelay
        · cases h
  · intro h
    cases role with
    | send => cases kind <;> (rw [relay, show i.name = _ from h]; decide)
    | receive =>
      cases kind with
      | quantum => rw [relay, show i.name = _ from h]; decide
      | classical =>
        rcases h with h | ⟨base, hbase, h⟩
        · rw [relay, h]; decide
        · obtain ⟨s, hs⟩ := Option.isSome_iff_exists.1 (Catalog.findUnitary?_isSome_iff.2 hbase)
          rw [hremote (Catalog.afterStem?_eq_some_iff.2 h), hs]
          rfl

end Instruction

/-! ### Places -/

/-- A place in a batch: a circuit, and a position among its instructions. -/
structure Place where
  circuit : Nat
  position : Nat

namespace Place

/-- Batch order, and then instruction order. -/
def Before (a b : Place) : Prop :=
  a.circuit < b.circuit ∨ a.circuit = b.circuit ∧ a.position < b.position

theorem Before.asymm {a b : Place} (h : a.Before b) : ¬b.Before a := by
  unfold Before at *
  omega

theorem not_before_self (a : Place) : ¬a.Before a := fun h => h.asymm h

end Place

namespace Resolution

variable {batch : List Snapshot}

/-- The edge that an end of `own` is part of. -/
def joining (role : RelayRole) (own peer : String) (kind : RelayKind) : Edge :=
  match role with
  | .send => ⟨own, peer, kind⟩
  | .receive => ⟨peer, own, kind⟩

/-- The end of a relay that stands at a place of a batch. -/
def EndAt (role : RelayRole) (batch : List Snapshot) (place : Place) (e : RelayEnd) : Prop :=
  ∃ s i kind peer, batch[place.circuit]? = some s ∧ s.instructions[place.position]? = some i ∧
    i.IsEnd role kind ∧ i.circuits.head? = some peer ∧
    e = ⟨joining role s.id peer kind, place.position, i.name⟩

def Declared (role : RelayRole) (batch : List Snapshot) (edge : Edge) : Prop :=
  ∃ place e, EndAt role batch place e ∧ e.edge = edge

/-- The first end of a role that has a property, and where it stands. -/
structure IsFirst (role : RelayRole) (batch : List Snapshot) (P : RelayEnd → Prop) (place : Place)
    (e : RelayEnd) : Prop where
  stands : EndAt role batch place e
  holds : P e
  first : ∀ other e', EndAt role batch other e' → P e' → ¬other.Before place

/-- A list has what there is at places, in the order of the places. -/
def Lists {α : Type} (At : Place → α → Prop) (l : List α) : Prop :=
  ∃ places : List Place, places.Pairwise Place.Before ∧
    (∀ place, place ∈ places ↔ ∃ a, At place a) ∧ List.Forall₂ At places l

/-! ### The ends of a batch, place by place -/

/-- The ends of one role with their places. -/
def placed (role : RelayRole) (batch : List Snapshot) : List (Place × RelayEnd) :=
  batch.zipIdx.flatMap fun (s, circuit) => (endsOf role s).map fun e => (⟨circuit, e.position⟩, e)

theorem map_placed (role : RelayRole) (batch : List Snapshot) :
    (placed role batch).map (·.2) = ends role batch := by
  have hfst : (batch.zipIdx.map Prod.fst).flatMap (endsOf role) = batch.flatMap (endsOf role) := by
    rw [List.zipIdx_map_fst]
  rw [ends, ← hfst, placed, List.map_flatMap, List.flatMap_map]
  simp only [List.map_map, Function.comp_def, List.map_id_fun', id_eq]

theorem declaredEdge?_eq_some_iff {role : RelayRole} {own : String} {i : Instruction} {edge : Edge} :
    declaredEdge? role own i = some edge ↔
      ∃ kind peer, i.IsEnd role kind ∧ i.circuits.head? = some peer ∧
        edge = joining role own peer kind := by
  simp only [← Instruction.relay_eq_some_iff, declaredEdge?, Instruction.peer]
  constructor
  · intro h
    split at h
    · next r peer hrelay hpeer =>
      obtain ⟨kind, role'⟩ := r
      split at h
      · next hrole =>
        obtain rfl : role' = role := hrole
        exact ⟨kind, peer, hrelay, hpeer, (Option.some.inj h).symm⟩
      · cases h
    · cases h
  · rintro ⟨kind, peer, hrelay, hpeer, rfl⟩
    rw [hrelay, hpeer]
    exact if_pos rfl

theorem mem_endsOf_iff {role : RelayRole} {s : Snapshot} {e : RelayEnd} : e ∈ endsOf role s ↔
    ∃ i, s.instructions[e.position]? = some i ∧ declaredEdge? role s.id i = some e.edge ∧
      e.gate = i.name := by
  simp only [endsOf, List.mem_filterMap, Prod.exists, List.mem_zipIdx_iff_getElem?,
    Option.map_eq_some_iff]
  constructor
  · rintro ⟨i, position, hi, edge, hedge, rfl⟩
    exact ⟨i, hi, hedge, rfl⟩
  · rintro ⟨i, hi, hedge, hgate⟩
    exact ⟨i, e.position, hi, e.edge, hedge, by rw [← hgate]⟩

theorem mem_placed_iff {role : RelayRole} {place : Place} {e : RelayEnd} :
    (place, e) ∈ placed role batch ↔ EndAt role batch place e := by
  simp only [placed, List.mem_flatMap, Prod.exists, List.mem_zipIdx_iff_getElem?, List.mem_map,
    Prod.mk.injEq, mem_endsOf_iff, declaredEdge?_eq_some_iff, EndAt]
  constructor
  · rintro ⟨s, circuit, hs, _, ⟨i, hi, ⟨kind, peer, hend, hpeer, hedge⟩, hgate⟩, rfl, rfl⟩
    exact ⟨s, i, kind, peer, hs, hi, hend, hpeer, by rw [← hedge, ← hgate]⟩
  · rintro ⟨s, i, kind, peer, hs, hi, hend, hpeer, rfl⟩
    exact ⟨s, place.circuit, hs, _, ⟨i, hi, ⟨kind, peer, hend, hpeer, rfl⟩, rfl⟩, rfl, rfl⟩

theorem placed_pairwise (role : RelayRole) (batch : List Snapshot) :
    (placed role batch).Pairwise fun a b => a.1.Before b.1 := by
  have hidx {α : Type} (l : List α) : l.zipIdx.Pairwise fun a b => a.2 < b.2 := by
    rw [← List.pairwise_map (f := Prod.snd) (R := (· < ·)), List.zipIdx_map_snd]
    exact List.pairwise_lt_range' 1
  refine List.pairwise_flatMap.2 ⟨fun (s, circuit) _ => ?_, (hidx batch).imp ?_⟩
  · rw [List.pairwise_map, endsOf, List.pairwise_filterMap]
    refine (hidx s.instructions).imp fun {a b} hlt e he e' he' => .inr ⟨rfl, ?_⟩
    obtain ⟨_, -, rfl⟩ := Option.map_eq_some_iff.1 he
    obtain ⟨_, -, rfl⟩ := Option.map_eq_some_iff.1 he'
    exact hlt
  · rintro ⟨s, circuit⟩ ⟨s', circuit'⟩ hlt x hx y hy
    obtain ⟨e, -, rfl⟩ := List.mem_map.1 hx
    obtain ⟨e', -, rfl⟩ := List.mem_map.1 hy
    exact .inl hlt

theorem mem_edges_iff {role : RelayRole} {edge : Edge} :
    edge ∈ (ends role batch).map (·.edge) ↔ Declared role batch edge := by
  rw [← map_placed, List.map_map, List.mem_map]
  simp only [Prod.exists, mem_placed_iff, Declared, Function.comp_apply]

/-! ### The first one -/

theorem findSome?_eq_some_iff {β : Type} {l : List (Place × RelayEnd)}
    (hl : l.Pairwise fun a b => a.1.Before b.1) {f : RelayEnd → Option β} {b : β} :
    l.findSome? (fun x => f x.2) = some b ↔
      ∃ place e, (place, e) ∈ l ∧ f e = some b ∧
        ∀ other e', (other, e') ∈ l → f e' ≠ none → ¬other.Before place := by
  constructor
  · intro h
    obtain ⟨before, ⟨place, e⟩, after, rfl, hhit, hnone⟩ := List.findSome?_eq_some_iff.1 h
    refine ⟨place, e, by simp, hhit, fun other e' hmem hother => ?_⟩
    rcases List.mem_append.1 hmem with hbefore | hafter
    · exact absurd (hnone _ hbefore) hother
    · rcases List.mem_cons.1 hafter with heq | hafter
      · obtain ⟨rfl, rfl⟩ := Prod.mk.inj heq
        exact Place.not_before_self _
      · exact ((List.pairwise_cons.1 (List.pairwise_append.1 hl).2.1).1 _ hafter).asymm
  · rintro ⟨place, e, hmem, hhit, hfirst⟩
    obtain ⟨before, after, rfl⟩ := List.append_of_mem hmem
    refine List.findSome?_eq_some_iff.2 ⟨before, _, after, rfl, hhit, fun x hx => ?_⟩
    by_contra hother
    exact hfirst x.1 x.2 (List.mem_append_left _ hx) hother
      ((List.pairwise_append.1 hl).2.2 x hx _ List.mem_cons_self)

theorem findSome?_ends_eq_some_iff {role : RelayRole} {β : Type} {f : RelayEnd → Option β} {b : β} :
    (ends role batch).findSome? f = some b ↔
      ∃ place e, IsFirst role batch (fun e => f e ≠ none) place e ∧ f e = some b := by
  rw [← map_placed, List.findSome?_map]
  refine (findSome?_eq_some_iff (placed_pairwise role batch)).trans ?_
  simp only [mem_placed_iff]
  constructor
  · rintro ⟨place, e, hstands, hhit, hfirst⟩
    exact ⟨place, e, ⟨hstands, by rw [hhit]; exact Option.some_ne_none b, hfirst⟩, hhit⟩
  · rintro ⟨place, e, h, hhit⟩
    exact ⟨place, e, h.stands, hhit, h.first⟩

/-! ### Lists in the order of places -/

variable {α : Type} {At : Place → α → Prop}

theorem EndAt.unique {role : RelayRole} {place : Place} {e e' : RelayEnd}
    (h : EndAt role batch place e) (h' : EndAt role batch place e') : e = e' := by
  obtain ⟨s, i, kind, peer, hs, hi, hend, hpeer, rfl⟩ := h
  obtain ⟨s', i', kind', peer', hs', hi', hend', hpeer', rfl⟩ := h'
  obtain rfl := Option.some.inj (hs.symm.trans hs')
  obtain rfl := Option.some.inj (hi.symm.trans hi')
  obtain rfl := Option.some.inj (hpeer.symm.trans hpeer')
  rw [← Instruction.relay_eq_some_iff] at hend hend'
  obtain ⟨rfl, -⟩ := Relay.mk.inj (Option.some.inj (hend.symm.trans hend'))
  rfl

/-- There is one list of what there is at places. -/
theorem Lists.unique (hAt : Relator.RightUnique At) {l l' : List α} (h : Lists At l)
    (h' : Lists At l') : l = l' := by
  obtain ⟨places, hplaces, hmem, hl⟩ := h
  obtain ⟨places', hplaces', hmem', hl'⟩ := h'
  have hnodup {places : List Place} (h : places.Pairwise Place.Before) : places.Nodup :=
    h.imp fun {a b} hab => by
      rintro rfl
      exact Place.not_before_self a hab
  have hperm : places.Perm places' :=
    (List.perm_ext_iff_of_nodup (hnodup hplaces) (hnodup hplaces')).2 fun place => by
      rw [hmem, hmem']
  obtain rfl : places = places' := hperm.eq_of_pairwise
    (fun a b _ _ hab hba => absurd hba hab.asymm) hplaces hplaces'
  exact List.right_unique_forall₂' hAt hl hl'

theorem lists_filter {role : RelayRole} {chosen : Place × RelayEnd → Bool} {f : RelayEnd → α}
    (hAt : ∀ place a, At place a ↔
      ∃ e, EndAt role batch place e ∧ chosen (place, e) = true ∧ f e = a) :
    Lists At (((placed role batch).filter chosen).map fun x => f x.2) := by
  refine ⟨((placed role batch).filter chosen).map (·.1), ?_, fun place => ?_, ?_⟩
  · exact List.pairwise_map.2 ((placed_pairwise role batch).filter _)
  · simp only [List.mem_map, List.mem_filter, Prod.exists, exists_and_right, exists_eq_right,
      mem_placed_iff, hAt]
    constructor
    · rintro ⟨e, hstands, hchosen⟩
      exact ⟨f e, e, hstands, hchosen, rfl⟩
    · rintro ⟨_, e, hstands, hchosen, -⟩
      exact ⟨e, hstands, hchosen⟩
  · rw [List.forall₂_map_left_iff, List.forall₂_map_right_iff, List.forall₂_same]
    rintro ⟨place, e⟩ hmem
    obtain ⟨hstands, hchosen⟩ := List.mem_filter.1 hmem
    exact (hAt ..).2 ⟨e, mem_placed_iff.1 hstands, hchosen, rfl⟩

end Resolution

end QuantumRelay
