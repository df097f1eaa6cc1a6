import QuantumRelay.Proofs.Engine.Blocks
import QuantumRelay.Proofs.Engine.History

/-!
# Channels are clear unless a qubit is under way

Channels are used in turn, one for each qubit that is sent, and there are as many of them as qubits to
send (`ChannelsInTurn`). So the channels under way are distinct, each in one queue, and what is received
has been sent before.

Over exact numbers a channel with no qubit under way is clear besides (`ChannelsKept`). A send moves the
state of a qubit to the next channel, which no send has used. A receive resets its qubit and exchanges
it with the channel, so what stays behind there is the qubit that has been reset. Other steps act on the
block of their circuit only (`StepsWithin`). `channels_stay_clear` puts this together for every state
that a shot comes to, of whatever width; that its indices are machine words is known below 64 qubits
(`accepted_runs`).
-/

namespace QuantumRelay

variable {σ R : Type}

/-! ### Channels that have been passed on -/

def Deed.channel? (role : RelayRole) (d : Deed R) : Option Nat :=
  match d.transfer with
  | some ⟨r, _, .channel c⟩ => if r = role then some c else none
  | _ => none

/-- The channels that have been sent or received, in turn. -/
def channelsBy (role : RelayRole) (deeds : List (Deed R)) : List Nat :=
  deeds.filterMap (·.channel? role)

theorem Deed.channel?_eq_some_iff {role : RelayRole} {d : Deed R} {c : Nat} :
    d.channel? role = some c ↔ ∃ peer, d.transfer = some ⟨role, peer, .channel c⟩ := by
  unfold Deed.channel?
  split
  · next r peer c' hd =>
    rw [hd]
    by_cases hr : r = role
    · simp [hr]
    · simp [hr]
  · next hnot =>
    constructor
    · intro h
      cases h
    · rintro ⟨peer, h⟩
      exact absurd h (hnot role peer c)

theorem Transfer.eq_channel {x : Option Transfer} {role : RelayRole}
    (h : x.map (·.relay) = some ⟨.quantum, role⟩) : ∃ peer c, x = some ⟨role, peer, .channel c⟩ := by
  obtain ⟨⟨role', peer, v⟩, rfl, hrelay⟩ := Option.map_eq_some_iff.1 h
  cases v with
  | bit b => cases hrelay
  | channel c =>
    cases hrelay
    exact ⟨peer, c, rfl⟩

/-- The channels with a qubit under way. -/
def Shot.underWay (s : Shot σ R) : List Nat := s.channels.letters.map (·.content)

def Action.sendsQubit : Action R → Bool
  | .sendQubit _ _ => true
  | _ => false

def sendsLeft (work : List (List (Task R))) : Nat := work.flatten.countP (·.action.sendsQubit)

theorem channelsBy_append (role : RelayRole) (deeds : List (Deed R)) (d : Deed R) :
    channelsBy role (deeds ++ [d]) = channelsBy role deeds ++ (d.channel? role).toList := by
  cases h : d.channel? role <;> simp [channelsBy, h]

theorem sendsLeft_set {work : List (List (Task R))} {own : Nat} {t : Task R} {rest : List (Task R)}
    (h : work[own]? = some (t :: rest)) :
    sendsLeft work = sendsLeft (work.set own rest) + if t.action.sendsQubit then 1 else 0 := by
  induction work generalizing own with
  | nil => cases h
  | cons tasks others ih =>
    cases own with
    | zero =>
      obtain rfl := Option.some.inj h
      simp only [sendsLeft, List.set_cons_zero, List.flatten_cons, List.countP_append,
        List.countP_cons]
      omega
    | succ own =>
      have hrest : sendsLeft others =
          sendsLeft (others.set own rest) + if t.action.sendsQubit then 1 else 0 := ih h
      simp only [sendsLeft, List.set_cons_succ, List.flatten_cons, List.countP_append] at hrest ⊢
      omega

theorem Mail.perm_takeFrom {α : Type} {sender receiver : Nat} {letters left : List (Letter α)}
    {content : α} (h : takeFrom sender receiver letters = some (content, left)) :
    (content :: left.map (·.content)).Perm (letters.map (·.content)) := by
  induction letters generalizing left with
  | nil => cases h
  | cons l rest ih =>
    rw [takeFrom] at h
    split at h
    · obtain ⟨rfl, rfl⟩ := Prod.mk.inj (Option.some.inj h)
      exact .refl _
    · obtain ⟨⟨c, more⟩, hmore, heq⟩ := Option.map_eq_some_iff.1 h
      obtain ⟨rfl, rfl⟩ := Prod.mk.inj heq
      exact (List.Perm.swap ..).trans ((ih hmore).cons _)

namespace Action.Steps

section letters

variable [Scalar R] [DrawSource σ] {own : Nat} {s s' : Shot σ R} {t : Task R} {x : Option Transfer}

/-- A step takes the channel that it receives off the way and puts the one that it sends on it. -/
theorem underWay_perm (h : t.action.Steps own s x s') :
    ((Deed.channel? .receive ⟨own, t, x⟩).toList ++ s'.underWay).Perm
      (s.underWay ++ (Deed.channel? .send ⟨own, t, x⟩).toList) := by
  generalize t.action = a at h
  cases h with
  | applyIf control operation => split <;> simp [Deed.channel?, Shot.underWay]
  | sendQubit qubit peer => simp [Deed.channel?, Shot.underWay, Mail.post]
  | @applyIfReceived b bits peer operation htake =>
    cases b <;> simp [Deed.channel?, Shot.underWay]
  | @loadReceived b bits peer control operation htake =>
    cases b <;> simp [Deed.channel?, Shot.underWay]
  | receiveQubit qubit htake =>
    obtain ⟨⟨c, letters⟩, hletters, heq⟩ := Option.map_eq_some_iff.1 htake
    obtain ⟨rfl, rfl⟩ := Prod.mk.inj heq
    simpa [Deed.channel?, Shot.underWay] using Mail.perm_takeFrom hletters
  | _ => simp [Deed.channel?, Shot.underWay]

theorem mem_underWay_of_receive {peer c : Nat}
    (h : t.action.Steps own s (some ⟨.receive, peer, .channel c⟩) s') : c ∈ s.underWay := by
  have hmem := h.underWay_perm.mem_iff.1 (List.mem_append_left _ (Option.mem_toList.2
    (Deed.channel?_eq_some_iff.2 ⟨peer, rfl⟩)))
  simpa [Deed.channel?] using hmem

theorem channel?_send (h : t.action.Steps own s x s') : Deed.channel? .send ⟨own, t, x⟩ =
    if t.action.sendsQubit then some s.nextChannel else none := by
  generalize t.action = a at h
  cases h <;> simp [Deed.channel?, Action.sendsQubit]

theorem nextChannel_eq (h : t.action.Steps own s x s') :
    s'.nextChannel = s.nextChannel + if t.action.sendsQubit then 1 else 0 := by
  generalize t.action = a at h
  cases h with
  | applyIf control operation => split <;> rfl
  | @applyIfReceived b bits peer operation htake => cases b <;> rfl
  | @loadReceived b bits peer control operation htake => cases b <;> rfl
  | _ => rfl

end letters

section transfers

variable [Scalar R] [DrawSource σ] {own peer c : Nat} {s s' : Shot σ R} {a : Action R}

theorem state_of_send (h : a.Steps own s (some ⟨.send, peer, .channel c⟩) s') :
    c = s.nextChannel ∧ ∃ qubit, a.qubits = [qubit] ∧ s'.state = s.state.swap qubit c := by
  cases h with
  | sendQubit qubit peer => exact ⟨rfl, qubit, rfl, rfl⟩

theorem state_of_receive (h : a.Steps own s (some ⟨.receive, peer, .channel c⟩) s') :
    ∃ qubit, a.qubits = [qubit] ∧
      s'.state = (s.state.reset qubit s.source).1.swap qubit c := by
  cases h with
  | receiveQubit qubit htake => exact ⟨qubit, rfl, rfl⟩

end transfers

theorem width_eq [Scalar R] [DrawSource σ] {own : Nat} {s s' : Shot σ R} {a : Action R}
    {x : Option Transfer} (h : a.Steps own s x s') : s'.state.width = s.state.width := by
  cases h with
  | reset qubit => exact s.state.width_reset qubit s.source
  | apply operation => exact operation.width_apply s.state
  | applyIf control operation =>
    split
    · exact operation.width_apply _
    · rfl
  | @applyIfReceived b bits peer operation htake =>
    cases b
    · rfl
    · exact operation.width_apply s.state
  | @loadReceived b bits peer control operation htake =>
    cases b
    · exact s.state.width_reset control s.source
    · exact (operation.width_apply _).trans (s.state.width_reset control s.source)
  | receiveQubit qubit htake => exact s.state.width_reset qubit s.source
  | _ => rfl

variable [ExactScalar R] [DrawSource σ] {own : Nat} {s s' : Shot σ R} {a : Action R}
  {x : Option Transfer} {B : Set Nat}

theorem confined (h : a.Steps own s x s') (hqubits : ∀ q ∈ a.qubits, q ∈ B)
    (hchannel : ∀ c, x.map (·.content) = some (.channel c) → c ∈ B)
    (hB : ∀ q ∈ B, q < s.state.width) : Confined B s.state s'.state := by
  cases h with
  | apply operation => exact s.state.confined_operation hqubits
  | measure qubit clbit => exact s.state.confined_measure s.source (hqubits _ List.mem_cons_self)
  | reset qubit => exact s.state.confined_reset s.source (hqubits _ List.mem_cons_self) hB
  | applyIf control operation =>
    obtain ⟨hcontrol, hoperation⟩ := List.forall_mem_cons.1 hqubits
    have hmeasure := s.state.confined_measure s.source hcontrol
    split
    · exact hmeasure.trans (Statevector.confined_operation _ hoperation) hB
    · exact hmeasure
  | sendBit qubit peer => exact s.state.confined_measure s.source (hqubits _ List.mem_cons_self)
  | receiveBit clbit htake => exact .refl B s.state
  | @applyIfReceived b bits peer operation htake =>
    cases b
    · exact .refl B s.state
    · exact s.state.confined_operation hqubits
  | @loadReceived b bits peer control operation htake =>
    obtain ⟨hcontrol, hoperation⟩ := List.forall_mem_cons.1 hqubits
    have hreset := s.state.confined_reset s.source hcontrol hB
    cases b
    · exact hreset
    · exact (hreset.trans (Statevector.confined_flip _ hcontrol) hB).trans
        (Statevector.confined_operation _ hoperation) hB
  | sendQubit qubit peer =>
    exact s.state.confined_swap (hqubits _ List.mem_cons_self) (hchannel _ rfl)
  | receiveQubit qubit htake =>
    have hqubit := hqubits _ List.mem_cons_self
    exact (s.state.confined_reset s.source hqubit hB).trans
      (Statevector.confined_swap _ hqubit (hchannel _ rfl)) hB

end Action.Steps

/-! ### As many channels as qubits to send -/

namespace Layout

variable [Scalar R] {group : List RunRequest} {own : Nat} {r : RunRequest} {m : Member R}

theorem Carries.relay_quantum_iff (h : Carries group own r m) {t : Task R} (ht : t ∈ m.tasks)
    (role : RelayRole) : t.instruction.relay = some ⟨.quantum, role⟩ ↔
      t.instruction.name = Catalog.quantumName role := by
  obtain ⟨s, hs⟩ := h.valid t ht
  rw [Instruction.relay_of_validate hs,
    Catalog.relay_eq_quantum_iff (Instruction.validate_eq_ok.1 hs).1]

theorem Carries.sendsQubit_eq (h : Carries group own r m) {t : Task R} (ht : t ∈ m.tasks) :
    t.action.sendsQubit = (t.instruction.name == "qsend") := by
  have hend : t.action.sendsQubit = true ↔
      t.action.relayEnd?.map (·.1) = some ⟨.quantum, .send⟩ := by
    cases t.action <;> simp [Action.sendsQubit, Action.relayEnd?]
  rw [Bool.eq_iff_iff, hend, h.relay_eq ht, h.relay_quantum_iff ht, beq_iff_eq]
  rfl

theorem Carries.countP_sendsQubit (h : Carries group own r m) :
    m.tasks.countP (·.action.sendsQubit) = quantumSends r := by
  rw [quantumSends, ← h.instructions_eq, List.countP_map]
  exact List.countP_congr fun t ht => by rw [h.sendsQubit_eq ht]; rfl

theorem sendsLeft_start {maxQubits : Nat} {l : Layout R} (hl : ofGroup maxQubits group = .ok l) :
    sendsLeft (l.members.map (·.tasks)) = l.channels := by
  have hlength : l.members.length = group.length := by
    obtain ⟨-, -, -, members, hplace, rfl⟩ := ofGroup_eq_ok.1 hl
    exact (forall₂_of_place hplace).length_eq.symm
  have hchannels : l.channels = channelsOf group := by
    obtain ⟨-, -, -, members, -, rfl⟩ := ofGroup_eq_ok.1 hl
    rfl
  have hcounts : l.members.map (fun m => m.tasks.countP (·.action.sendsQubit)) =
      group.map quantumSends := by
    refine List.ext_getElem (by simpa using hlength) fun i hi hi' => ?_
    rw [List.length_map] at hi hi'
    obtain ⟨r, hr⟩ := exists_carries hl (List.getElem?_eq_getElem hi)
    have hreq := hr.request
    rw [List.getElem?_eq_getElem hi', Option.some.injEq] at hreq
    rw [List.getElem_map, List.getElem_map, hr.countP_sendsQubit, hreq]
  rw [sendsLeft, List.countP_flatten, List.map_map, hchannels, channelsOf, ← hcounts]
  rfl

end Layout

/-! ### All steps -/

/-- In every state of a shot the channels are used in turn, and there are enough of them. -/
structure ChannelsInTurn (l : Layout R) (deeds : List (Deed R)) (work : List (List (Task R)))
    (s : Shot σ R) : Prop where
  width_eq : s.state.width = l.width
  /-- The channels are taken in turn. -/
  sent_eq : channelsBy .send deeds = List.range' l.blocks (channelsBy .send deeds).length
  next_eq : s.nextChannel = l.blocks + (channelsBy .send deeds).length
  /-- There is one left for every qubit that is still to be sent. -/
  left : s.nextChannel + sendsLeft work = l.width
  /-- What has been sent has been received, or is under way. -/
  perm : (channelsBy .receive deeds ++ s.underWay).Perm (channelsBy .send deeds)

namespace ChannelsInTurn

theorem start [Scalar R] {maxQubits : Nat} {group : List RunRequest} {l : Layout R}
    (hl : Layout.ofGroup maxQubits group = .ok l) (source : σ) :
    ChannelsInTurn l [] (l.members.map (·.tasks)) (Shot.start l source) where
  width_eq := rfl
  sent_eq := rfl
  next_eq := rfl
  left := by rw [Layout.sendsLeft_start hl]; rfl
  perm := .refl _

section kept

variable {l : Layout R} {deeds : List (Deed R)} {work : List (List (Task R))} {s : Shot σ R} {c : Nat}

theorem sent_nodup (h : ChannelsInTurn l deeds work s) : (channelsBy .send deeds).Nodup := by
  rw [h.sent_eq]
  exact List.nodup_range'

theorem mem_sent_iff (h : ChannelsInTurn l deeds work s) :
    c ∈ channelsBy .send deeds ↔ l.blocks ≤ c ∧ c < s.nextChannel := by
  rw [h.sent_eq, List.mem_range'_1, h.next_eq]

theorem mem_sent_of_mem_underWay (h : ChannelsInTurn l deeds work s) (hc : c ∈ s.underWay) :
    c ∈ channelsBy .send deeds :=
  h.perm.mem_iff.1 (List.mem_append_right _ hc)

theorem underWay_nodup (h : ChannelsInTurn l deeds work s) : s.underWay.Nodup :=
  (h.perm.nodup_iff.2 h.sent_nodup).of_append_right

theorem not_mem_of_received (h : ChannelsInTurn l deeds work s) (hc : c ∈ channelsBy .receive deeds) :
    c ∉ s.underWay :=
  List.disjoint_of_nodup_append (h.perm.nodup_iff.2 h.sent_nodup) hc

theorem queue_unique (h : ChannelsInTurn l deeds work s) {p r p' r' : Nat}
    (hc : c ∈ s.channels.queue p r) (hc' : c ∈ s.channels.queue p' r') : p = p' ∧ r = r' := by
  obtain ⟨letter, hletter, rfl⟩ := List.mem_map.1 hc
  obtain ⟨letter', hletter', heq⟩ := List.mem_map.1 hc'
  obtain ⟨hmem, hpr⟩ := List.mem_filter.1 hletter
  obtain ⟨hmem', hpr'⟩ := List.mem_filter.1 hletter'
  obtain rfl := List.inj_on_of_nodup_map h.underWay_nodup hmem' hmem heq
  simp only [Bool.and_eq_true, decide_eq_true_eq] at hpr hpr'
  exact ⟨hpr.1.symm.trans hpr'.1, hpr.2.symm.trans hpr'.2⟩

theorem queue_nodup (h : ChannelsInTurn l deeds work s) (p r : Nat) :
    (s.channels.queue p r).Nodup :=
  h.underWay_nodup.sublist (List.filter_sublist.map _)

end kept

variable [Scalar R] [DrawSource σ] {l : Layout R} {deeds : List (Deed R)}
  {work : List (List (Task R))} {s s' : Shot σ R} {own : Nat} {t : Task R} {rest : List (Task R)}
  {x : Option Transfer}

theorem channel_lt (h : ChannelsInTurn l deeds work s) (hwork : work[own]? = some (t :: rest))
    (hstep : t.action.Steps own s x s') {c : Nat}
    (hc : x.map (·.content) = some (.channel c)) : l.blocks ≤ c ∧ c < l.width := by
  have hleft := h.left
  rw [sendsLeft_set hwork] at hleft
  have hsend := hstep.channel?_send
  match x, hc with
  | some ⟨.send, peer, _⟩, rfl =>
    have hnext := h.next_eq
    cases hsends : t.action.sendsQubit with
    | false => simp [Deed.channel?, hsends] at hsend
    | true =>
      obtain rfl : c = s.nextChannel := by simpa [Deed.channel?, hsends] using hsend
      simp only [hsends, if_true] at hleft
      omega
  | some ⟨.receive, peer, _⟩, rfl =>
    have := h.mem_sent_iff.1 (h.mem_sent_of_mem_underWay hstep.mem_underWay_of_receive)
    omega

theorem step (h : ChannelsInTurn l deeds work s) (hwork : work[own]? = some (t :: rest))
    (hstep : t.action.Steps own s x s') :
    ChannelsInTurn l (deeds ++ [⟨own, t, x⟩]) (work.set own rest) s' := by
  have hsent := hstep.channel?_send
  have hnext := hstep.nextChannel_eq
  have hnext_eq := h.next_eq
  constructor
  case width_eq => rw [hstep.width_eq, h.width_eq]
  case sent_eq =>
    rw [channelsBy_append, hsent]
    cases t.action.sendsQubit with
    | false => simpa using h.sent_eq
    | true =>
      simp only [if_true, Option.toList_some, List.length_append, List.length_singleton]
      rw [List.range'_concat, ← h.sent_eq, Nat.one_mul, ← hnext_eq]
  case next_eq =>
    rw [channelsBy_append, hsent, hnext, hnext_eq]
    cases t.action.sendsQubit <;> simp [Nat.add_assoc]
  case left =>
    have hleft := h.left
    rw [sendsLeft_set hwork] at hleft
    omega
  case perm =>
    rw [channelsBy_append, channelsBy_append, List.append_assoc]
    refine (hstep.underWay_perm.append_left _).trans ?_
    rw [← List.append_assoc]
    exact h.perm.append_right _

end ChannelsInTurn

/-- What holds of the channels in every state of a shot over exact numbers. -/
structure ChannelsKept [Zero R] (l : Layout R) (deeds : List (Deed R)) (work : List (List (Task R)))
    (s : Shot σ R) : Prop extends ChannelsInTurn l deeds work s where
  clear : ∀ c, l.blocks ≤ c → c ∉ s.underWay → s.state.Clear c

namespace ChannelsKept

variable [ExactScalar R] [DrawSource σ] {l : Layout R} {deeds : List (Deed R)}
  {work : List (List (Task R))} {s s' : Shot σ R} {own : Nat} {t : Task R} {rest : List (Task R)}
  {x : Option Transfer}

omit [DrawSource σ] in
theorem start {maxQubits : Nat} {group : List RunRequest} (hl : Layout.ofGroup maxQubits group = .ok l)
    (source : σ) : ChannelsKept l [] (l.members.map (·.tasks)) (Shot.start l source) where
  toChannelsInTurn := .start hl source
  clear c _ _ := Statevector.clear_zero l.width c

theorem confined (h : ChannelsKept l deeds work s) (hwork : work[own]? = some (t :: rest))
    (hstep : t.action.Steps own s x s') (hqubits : ∀ q ∈ t.action.qubits, q < l.blocks) :
    Confined {q | q ∈ t.action.qubits ∨ x.map (·.content) = some (.channel q)} s.state s'.state := by
  refine hstep.confined (fun q hq => .inl hq) (fun c hc => .inr hc) ?_
  have hblocks : l.blocks ≤ l.width := Nat.le_add_right ..
  rintro q (hq | hq)
  · rw [h.width_eq]
    exact (hqubits q hq).trans_le hblocks
  · rw [h.width_eq]
    exact (h.channel_lt hwork hstep hq).2

theorem clear_received (h : ChannelsKept l deeds work s) (hwork : work[own]? = some (t :: rest))
    {peer c : Nat} (hstep : t.action.Steps own s (some ⟨.receive, peer, .channel c⟩) s')
    (hqubits : ∀ q ∈ t.action.qubits, q < l.blocks) : s'.state.Clear c := by
  obtain ⟨qubit, hqubit, hstate⟩ := hstep.state_of_receive
  have hc := (h.channel_lt hwork hstep rfl).2
  have hblocks : l.blocks ≤ l.width := Nat.le_add_right ..
  have hlt : qubit < l.width := (hqubits qubit (by simp [hqubit])).trans_le hblocks
  rw [← h.width_eq, ← s.state.width_reset qubit s.source] at hc hlt
  rw [hstate, Statevector.swap_comm]
  exact (Statevector.moves_swap _ hc hlt (s.state.clear_reset s.source)).after

theorem step (h : ChannelsKept l deeds work s) (hwork : work[own]? = some (t :: rest))
    (hstep : t.action.Steps own s x s') (hqubits : ∀ q ∈ t.action.qubits, q < l.blocks) :
    ChannelsKept l (deeds ++ [⟨own, t, x⟩]) (work.set own rest) s' := by
  have hconfined := h.confined hwork hstep hqubits
  have hperm := hstep.underWay_perm
  constructor
  case toChannelsInTurn => exact h.toChannelsInTurn.step hwork hstep
  case clear =>
    intro c hblocks hc
    by_cases hreceived : Deed.channel? .receive ⟨own, t, x⟩ = some c
    · obtain ⟨peer, rfl⟩ := Deed.channel?_eq_some_iff.1 hreceived
      exact h.clear_received hwork hstep hqubits
    · have hbefore : c ∉ s.underWay := by
        intro hmem
        rcases List.mem_append.1 (hperm.mem_iff.2 (List.mem_append_left _ hmem)) with hmem | hmem
        · exact hreceived (Option.mem_toList.1 hmem)
        · exact hc hmem
      refine hconfined.clear ?_ (h.clear c hblocks hbefore)
      rintro (hq | hq)
      · exact absurd (hqubits c hq) (Nat.not_lt.2 hblocks)
      · -- It is not received, so it has been sent, and is under way.
        obtain ⟨⟨role, peer, content⟩, rfl, rfl⟩ := Option.map_eq_some_iff.1 hq
        cases role with
        | receive => exact hreceived (Deed.channel?_eq_some_iff.2 ⟨peer, rfl⟩)
        | send =>
          have hmem := hperm.mem_iff.2 (List.mem_append_right s.underWay
            (Option.mem_toList.2 (Deed.channel?_eq_some_iff.2 ⟨peer, rfl⟩)))
          rcases List.mem_append.1 hmem with hmem | hmem
          · exact hreceived (Option.mem_toList.1 hmem)
          · exact hc hmem

end ChannelsKept

/-! ### The states of a shot -/

section layout

open Layout

/-- What a step of the circuit at place `own` does to the joint state. -/
structure StepsWithin [Scalar R] [DrawSource σ] (group : List RunRequest) (l : Layout R)
    (deeds : List (Deed R)) (own : Nat) (t : Task R) (x : Option Transfer) (s s' : Shot σ R) :
    Prop where
  /-- It acts on its own block, and on the channel that it sends or receives. -/
  confined : Confined (block group own ∪ {c | x.map (·.content) = some (.channel c)})
    s.state s'.state
  own_block : t.instruction.name ≠ "qsend" → t.instruction.name ≠ "qrecv" →
    Confined (block group own) s.state s'.state
  /-- A qubit that is sent goes to a channel that none has gone to before. -/
  send : t.instruction.name = "qsend" → ∃ peer, ∃ q ∈ t.instruction.qubits,
    x = some ⟨.send, peer, .channel s.nextChannel⟩ ∧ s.nextChannel < l.width ∧
    s.nextChannel ∉ channelsBy .send deeds ∧
    Statevector.Moves (qubitsOf (group.take own) + q.toNat) s.nextChannel s.state s'.state
  /-- A qubit that is received comes from a channel that has been sent, to one that has been reset. -/
  receive : t.instruction.name = "qrecv" → ∃ peer c, ∃ q ∈ t.instruction.qubits,
    x = some ⟨.receive, peer, .channel c⟩ ∧ c ∈ channelsBy .send deeds ∧
    Statevector.Moves c (qubitsOf (group.take own) + q.toNat)
      (s.state.reset (qubitsOf (group.take own) + q.toNat) s.source).1 s'.state

variable {maxQubits : Nat} {group : List RunRequest} {l : Layout R} {source : σ}
  {deeds : List (Deed R)} {work : List (List (Task R))} {s s' : Shot σ R} {own : Nat}
  {t : Task R} {rest : List (Task R)} {x : Option Transfer}

section histories

variable [Scalar R] [DrawSource σ]

theorem History.carries (h : History l source deeds work s) (hl : ofGroup maxQubits group = .ok l)
    (hwork : work[own]? = some (t :: rest)) : ∃ r m, Carries group own r m ∧ t ∈ m.tasks := by
  obtain ⟨m, hm, hmem⟩ := h.mem_of_work hwork
  obtain ⟨r, hr⟩ := exists_carries hl hm
  exact ⟨r, m, hr, hmem t List.mem_cons_self⟩

theorem History.qubit_mem (h : History l source deeds work s)
    (hl : ofGroup maxQubits group = .ok l) (hwork : work[own]? = some (t :: rest)) :
    ∀ q ∈ t.action.qubits, q ∈ block group own := by
  obtain ⟨r, m, hr, ht⟩ := h.carries hl hwork
  exact hr.qubit_mem ht

theorem History.qubit_lt (h : History l source deeds work s) (hl : ofGroup maxQubits group = .ok l)
    (hwork : work[own]? = some (t :: rest)) : ∀ q ∈ t.action.qubits, q < l.blocks := by
  intro q hq
  rw [blocks_eq hl]
  exact block_lt (h.qubit_mem hl hwork q hq)

theorem History.channelsInTurn (hl : ofGroup maxQubits group = .ok l)
    (h : History l source deeds work s) : ChannelsInTurn l deeds work s := by
  induction h with
  | start => exact .start hl source
  | step h hwork hstep ih => exact ih.step hwork hstep

end histories

variable [ExactScalar R] [DrawSource σ]

theorem History.channelsKept (hl : ofGroup maxQubits group = .ok l)
    (h : History l source deeds work s) : ChannelsKept l deeds work s := by
  induction h with
  | start => exact .start hl source
  | step h hwork hstep ih => exact ih.step hwork hstep (h.qubit_lt hl hwork)

theorem History.stepsWithin (hl : ofGroup maxQubits group = .ok l)
    (h : History l source deeds work s) (hwork : work[own]? = some (t :: rest))
    (hstep : t.action.Steps own s x s') : StepsWithin group l deeds own t x s s' := by
  have hkept := h.channelsKept hl
  have hblock := h.qubit_mem hl hwork
  have hconfined := hkept.confined hwork hstep (h.qubit_lt hl hwork)
  obtain ⟨r, m, hr, ht⟩ := h.carries hl hwork
  have hrelay : x.map (·.relay) = t.instruction.relay := by
    rw [← hr.relay_eq ht, hstep.relayEnd?, Option.map_map]
    rfl
  have hlt (q : Nat) (hq : q ∈ t.action.qubits) : q < s.state.width := by
    rw [hkept.width_eq]
    exact (h.qubit_lt hl hwork q hq).trans_le (Nat.le_add_right ..)
  have hqubit (q : Nat) (hq : q ∈ t.action.qubits) :
      ∃ p ∈ t.instruction.qubits, q = qubitsOf (group.take own) + p.toNat :=
    Action.qubits_ofInstruction (hr.action_eq t ht) q hq
  constructor
  case confined =>
    refine hconfined.mono ?_
    rintro q (hq | hq)
    · exact .inl (hblock q hq)
    · exact .inr hq
  case own_block =>
    intro hsend hreceive
    refine hconfined.mono ?_
    rintro q (hq | hq)
    · exact hblock q hq
    · obtain ⟨⟨role, peer, content⟩, rfl, rfl⟩ := Option.map_eq_some_iff.1 hq
      have hname := (hr.relay_quantum_iff ht role).1 hrelay.symm
      cases role with
      | send => exact absurd hname hsend
      | receive => exact absurd hname hreceive
  case send =>
    intro hname
    obtain ⟨peer, c, rfl⟩ := Transfer.eq_channel (hrelay.trans ((hr.relay_quantum_iff ht .send).2 hname))
    obtain ⟨rfl, qubit, hq, hstate⟩ := hstep.state_of_send
    have hmem : qubit ∈ t.action.qubits := hq ▸ List.mem_singleton_self _
    have hnext := (hkept.channel_lt hwork hstep rfl)
    have hfresh : s.nextChannel ∉ channelsBy .send deeds := fun hmem =>
      Nat.lt_irrefl _ (hkept.mem_sent_iff.1 hmem).2
    obtain ⟨p, hp, rfl⟩ := hqubit qubit hmem
    refine ⟨peer, p, hp, rfl, hnext.2, hfresh, ?_⟩
    rw [hstate]
    refine Statevector.moves_swap _ (hlt _ hmem) (hkept.width_eq ▸ hnext.2) ?_
    exact hkept.clear _ hnext.1 fun hway => hfresh (hkept.mem_sent_of_mem_underWay hway)
  case receive =>
    intro hname
    obtain ⟨peer, c, rfl⟩ :=
      Transfer.eq_channel (hrelay.trans ((hr.relay_quantum_iff ht .receive).2 hname))
    obtain ⟨qubit, hq, hstate⟩ := hstep.state_of_receive
    have hmem : qubit ∈ t.action.qubits := hq ▸ List.mem_singleton_self _
    have hc := hkept.channel_lt hwork hstep rfl
    obtain ⟨p, hp, rfl⟩ := hqubit qubit hmem
    refine ⟨peer, c, p, hp, rfl,
      hkept.mem_sent_of_mem_underWay hstep.mem_underWay_of_receive, ?_⟩
    rw [hstate, Statevector.swap_comm]
    refine Statevector.moves_swap _ ?_ ?_ (s.state.clear_reset s.source)
    · rw [Statevector.width_reset, hkept.width_eq]
      exact hc.2
    · rw [Statevector.width_reset]
      exact hlt _ hmem

open Engine in
/-- Circuits and channels have qubits of their own, every qubit is sent over a channel of its own, and a
channel is clear unless a qubit is under way on it, in every state that a shot comes to, whatever the
order of the circuits. So a step of a circuit acts on its own block, save for the channel on which it
sends or receives a qubit, and what is sent is moved to the channel and from there to its target. -/
theorem channels_stay_clear (hl : ofGroup maxQubits group = .ok l) (source : σ) :
    (∀ own other, own ≠ other → Disjoint (block group own) (block group other)) ∧
    (∀ own, Disjoint (block group own) (Set.Ico l.blocks l.width)) ∧
    (∃ deeds, History l source deeds (settle (l.members.map (·.tasks)) (.start l source)).1
      (settle (l.members.map (·.tasks)) (.start l source)).2) ∧
    ∀ deeds work s, History l source deeds work s →
      (channelsBy .send deeds).Nodup ∧ s.nextChannel ≤ l.width ∧
      (∀ p r p' r' c, c ∈ s.channels.queue p r → c ∈ s.channels.queue p' r' → p = p' ∧ r = r') ∧
      (∀ p r, (s.channels.queue p r).Nodup) ∧
      (∀ c, l.blocks ≤ c → s.nextChannel ≤ c ∨ c ∈ channelsBy .receive deeds → s.state.Clear c) ∧
      ∀ own t rest x s', work[own]? = some (t :: rest) → t.action.Steps own s x s' →
        StepsWithin group l deeds own t x s s' := by
  refine ⟨fun own other hne => block_disjoint hne, fun own => ?_, History.settle l source,
    fun deeds work s h => ?_⟩
  · rw [Set.disjoint_left]
    intro q hq hchannel
    have hblocks := blocks_eq hl
    have := block_lt hq
    have := hchannel.1
    omega
  · have hkept := h.channelsKept hl
    have hleft := hkept.left
    refine ⟨hkept.sent_nodup, by omega, fun _ _ _ _ _ => hkept.queue_unique, hkept.queue_nodup,
      fun c hc hclear => hkept.clear c hc fun hway => ?_,
      fun own t rest x s' hwork hstep => h.stepsWithin hl hwork hstep⟩
    rcases hclear with hnext | hreceived
    · have := (hkept.mem_sent_iff.1 (hkept.mem_sent_of_mem_underWay hway)).2
      omega
    · exact hkept.not_mem_of_received hreceived hway

end layout

/-! ### One qubit on its way -/

def sendingQubit : Instruction := { name := "qsend", qubits := [0], circuits := ["b"] }

def receivingQubit : Instruction := { name := "qrecv", qubits := [0], circuits := ["a"] }

/-- It sends a qubit that reads one. -/
def qubitSender : RunRequest :=
  { id := "a", config := {}, execType := .dynamic, numQubits := 1, numClbits := 0
    instructions := [{ name := "x", qubits := [0] }, sendingQubit] }

def qubitReceiver : RunRequest :=
  { id := "b", config := {}, execType := .dynamic, numQubits := 1, numClbits := 0
    instructions := [receivingQubit] }

/-- A one that is sent leaves its place for the channel, and the channel is clear again when the one has
been received. -/
theorem channel_clear_again :
    ∃ l : Layout ℝ, Layout.ofGroup 3 [qubitSender, qubitReceiver] = .ok l ∧
      (∃ deeds work s, History l (⟨[]⟩ : GivenDraws) deeds work s ∧
        channelsBy .send deeds = [2] ∧ channelsBy .receive deeds = [] ∧
        s.state.Clear 0 ∧ ¬s.state.Clear 2) ∧
      ∃ deeds work s, History l (⟨[]⟩ : GivenDraws) deeds work s ∧ work = [[], []] ∧
        channelsBy .send deeds = [2] ∧ channelsBy .receive deeds = [2] ∧ s.state.Clear 2 := by
  let l : Layout ℝ :=
    { members := [⟨"a", 0, [⟨{ name := "x", qubits := [0] }, .apply (.flipIf [] 0)⟩,
          ⟨sendingQubit, .sendQubit 0 1⟩]⟩,
        ⟨"b", 0, [⟨receivingQubit, .receiveQubit 1 0⟩]⟩]
      blocks := 2
      channels := 1 }
  have hl : Layout.ofGroup 3 [qubitSender, qubitReceiver] = .ok l := rfl
  have hone : History l (⟨[]⟩ : GivenDraws) _ _ _ :=
    .step .start (show _[0]? = _ from rfl) (.apply (.flipIf [] 0))
  have hsend : History l (⟨[]⟩ : GivenDraws) _ _ _ :=
    hone.step (show _[0]? = _ from rfl) (.sendQubit 0 1)
  have hreceive : History l (⟨[]⟩ : GivenDraws) _ _ _ :=
    hsend.step (show _[1]? = _ from rfl) (.receiveQubit 1 rfl)
  have hkept := (channels_stay_clear hl (⟨[]⟩ : GivenDraws)).2.2.2
  obtain ⟨-, -, -, -, -, hwithin⟩ := hkept _ _ _ hone
  obtain ⟨_, _, hq, -, -, -, hmoves⟩ :=
    (hwithin 0 _ _ _ _ (show _[0]? = _ from rfl) (.sendQubit 0 1)).send rfl
  obtain rfl := List.mem_singleton.1 hq
  obtain ⟨-, -, -, -, hclear, -⟩ := hkept _ _ _ hreceive
  have hbusy : ¬(((Shot.start l (⟨[]⟩ : GivenDraws)).apply (.flipIf [] 0)).swap 0 2).state.Clear 2 := by
    intro hclear
    have hamplitude := calc
      ((((Statevector.zero 3 : Statevector (Complex ℝ)).flipIf [] 0).swap 0 2).amplitude 4)
      _ = ((Statevector.zero 3).flipIf [] 0).amplitude 1 :=
        Statevector.amplitude_swap _ (show 0 < 3 by decide) (show 2 < 3 by decide) (show 4 < 8 by decide)
      _ = (Statevector.zero 3).amplitude 0 := by
        rw [Statevector.flipIf_eq]
        exact Statevector.amplitude_gather _ _ (show 1 < 8 by decide)
      _ = 1 := Statevector.amplitude_ofFn _ (show 0 < 8 by decide)
    exact one_ne_zero (congrArg Complex.re (hamplitude.symm.trans (hclear 4 rfl)))
  exact ⟨l, hl, ⟨_, _, _, hsend, rfl, rfl, hmoves.after, hbusy⟩, _, _, _, hreceive, rfl, rfl, rfl,
    hclear 2 (Nat.le_refl 2) (.inr (List.mem_singleton_self 2))⟩

end QuantumRelay
