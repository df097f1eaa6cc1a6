import QuantumRelay.Proofs.Engine.Blocks
import QuantumRelay.Proofs.Engine.History
import QuantumRelay.Proofs.Engine.RoundRobin

/-!
# Relayed values arrive in order

What a circuit has received from another one, followed by what is under way between them, is what the
other one has sent, in this order (`History.passed_eq`). A step either appends what it sends to the
queue of its pair and kind or takes what it receives from the front (`Action.Steps.queue_eq`), and every
other queue stays as it is.

The deeds of a circuit are its instructions in turn, and a deed sends or receives what its instruction
says (`relayed_in_order`). So the receives of a circuit get what the sends to it have sent, in program
order, whatever order the circuits take.
-/

namespace QuantumRelay

variable {σ R : Type}

/-- What a deed of the circuit at place `own` sends to or receives from the circuit at `peer`. -/
def Deed.passes (role : RelayRole) (kind : RelayKind) (own peer : Nat) (d : Deed R) : List Value :=
  match d.transfer with
  | none => []
  | some x => if x.relay = ⟨kind, role⟩ ∧ d.place = own ∧ x.peer = peer then [x.content] else []

/-- What the circuit at place `own` has sent to or received from the circuit at `peer`, in turn. -/
def passed (role : RelayRole) (kind : RelayKind) (own peer : Nat) (deeds : List (Deed R)) :
    List Value :=
  deeds.flatMap (·.passes role kind own peer)

theorem passed_append (role : RelayRole) (kind : RelayKind) (own peer : Nat)
    (deeds : List (Deed R)) (d : Deed R) : passed role kind own peer (deeds ++ [d]) =
      passed role kind own peer deeds ++ d.passes role kind own peer := by
  simp [passed]

/-! ### One step -/

namespace Action.Steps

variable [Scalar R] [DrawSource σ] {own peer : Nat} {s s' : Shot σ R} {a : Action R} {v : Value}

theorem queue_of_none (h : a.Steps own s none s') (kind : RelayKind) (sender receiver : Nat) :
    s'.queue kind sender receiver = s.queue kind sender receiver := by
  cases h with
  | applyIf control operation => split <;> rfl
  | _ => rfl

theorem queue_of_send (h : a.Steps own s (some ⟨.send, peer, v⟩) s') (kind : RelayKind)
    (sender receiver : Nat) : s'.queue kind sender receiver = s.queue kind sender receiver ++
      if v.kind = kind ∧ own = sender ∧ peer = receiver then [v] else [] := by
  cases h <;> cases kind <;> simp [Shot.queue, Value.kind, Mail.queue_post] <;> split <;> rfl

theorem queue_of_receive (h : a.Steps own s (some ⟨.receive, peer, v⟩) s') (kind : RelayKind)
    (sender receiver : Nat) :
    (if v.kind = kind ∧ peer = sender ∧ own = receiver then [v] else []) ++
      s'.queue kind sender receiver = s.queue kind sender receiver := by
  -- What is taken leaves its queue; what is done with it touches no queue.
  have hbits {b : Bool} {bits : Mail Bool} {t : Shot σ R} (htake : s.bits.take? peer own = some (b, bits))
      (hb : t.bits = bits) (hc : t.channels = s.channels) :
      (if (Value.bit b).kind = kind ∧ peer = sender ∧ own = receiver then [.bit b] else []) ++
        t.queue kind sender receiver = s.queue kind sender receiver := by
    cases kind
    · simp only [Shot.queue, hb, ← Mail.append_queue_of_take? htake sender receiver, Value.kind]
      split <;> simp_all
    · simp [Shot.queue, hc, Value.kind]
  cases h with
  | receiveBit clbit htake => exact hbits htake rfl rfl
  | @applyIfReceived b bits _ operation htake => cases b <;> exact hbits htake rfl rfl
  | @loadReceived b bits _ control operation htake => cases b <;> exact hbits htake rfl rfl
  | receiveQubit qubit htake =>
    cases kind
    · simp [Shot.queue, Value.kind]
    · simp [Shot.queue, ← Mail.append_queue_of_take? htake sender receiver, Value.kind]
      split <;> rfl

theorem queue_eq {t : Task R} {x : Option Transfer} (h : t.action.Steps own s x s')
    (kind : RelayKind) (sender receiver : Nat) :
    Deed.passes .receive kind receiver sender ⟨own, t, x⟩ ++ s'.queue kind sender receiver =
      s.queue kind sender receiver ++ Deed.passes .send kind sender receiver ⟨own, t, x⟩ := by
  match x with
  | none => simp [Deed.passes, h.queue_of_none]
  | some ⟨.send, peer, v⟩ => simp [Deed.passes, Transfer.relay, h.queue_of_send]
  | some ⟨.receive, peer, v⟩ =>
    rw [← h.queue_of_receive]
    simp [Deed.passes, Transfer.relay, and_comm]

end Action.Steps

/-! ### Steps that have to wait -/

theorem Shot.length_queue (s : Shot σ R) (kind : RelayKind) (sender receiver : Nat) :
    (s.queue kind sender receiver).length = s.waiting kind sender receiver := by
  cases kind <;> simp [Shot.queue]

theorem Action.perform?_eq_none_iff_queue [Scalar R] [DrawSource σ] {own : Nat} {s : Shot σ R}
    {a : Action R} : a.perform? own s = none ↔
      ∃ kind peer, a.relayEnd? = some (⟨kind, .receive⟩, peer) ∧ s.queue kind peer own = [] := by
  simp only [Action.perform?_eq_none_iff, ← Shot.length_queue, List.length_eq_zero_iff]

theorem Engine.advance_of_none [Scalar R] [DrawSource σ] {own : Nat} {s : Shot σ R} {t : Task R}
    (h : t.action.perform? own s = none) (rest : List (Task R)) :
    advance own (t :: rest) s = (t :: rest, s) := by
  rw [advance, h]

/-! ### All steps -/

namespace History

variable [Scalar R] [DrawSource σ] {l : Layout R} {source : σ} {deeds : List (Deed R)}
  {work : List (List (Task R))} {s : Shot σ R} {maxQubits : Nat} {group : List RunRequest}

/-- What has been received, followed by what is under way, is what has been sent. -/
theorem passed_eq (h : History l source deeds work s) (kind : RelayKind) (sender receiver : Nat) :
    passed .receive kind receiver sender deeds ++ s.queue kind sender receiver =
      passed .send kind sender receiver deeds := by
  induction h with
  | start => cases kind <;> rfl
  | @step deeds work s s' own t rest x h hwork hstep ih =>
    rw [passed_append, passed_append, List.append_assoc, hstep.queue_eq, ← List.append_assoc, ih]

theorem relays_as_instruction (hl : Layout.ofGroup maxQubits group = .ok l)
    (h : History l source deeds work s) {d : Deed R} (hd : d ∈ deeds) :
    ∃ r, group[d.place]? = some r ∧ d.task.instruction ∈ r.instructions ∧
      d.task.instruction.relay = d.transfer.map (·.relay) ∧
      d.task.instruction.peer = d.transfer.bind fun x => (group[x.peer]?).map (·.id) := by
  obtain ⟨m, hm, ht, hend⟩ := h.mem_of_deed hd
  obtain ⟨r, hr⟩ := Layout.exists_carries hl hm
  have hrelay : d.task.instruction.relay = d.transfer.map (·.relay) := by
    rw [← hr.relay_eq ht, hend, Option.map_map]
    rfl
  refine ⟨r, hr.request, hr.instructions_eq ▸ List.mem_map_of_mem ht, hrelay, ?_⟩
  obtain ⟨spec, hspec⟩ := hr.valid _ ht
  cases hx : d.transfer with
  | none =>
    have hboth := (Instruction.peer_of_validate hspec).1
    rw [hrelay, hx] at hboth
    simpa using hboth
  | some x =>
    have hplace := Action.relayEnd?_ofInstruction (Instruction.validate_eq_ok.1 hspec).1
      (hr.action_eq _ ht)
    rw [hend, hrelay, hx] at hplace
    obtain ⟨place, hpeer, heq⟩ := Option.map_eq_some_iff.1 hplace.symm
    obtain ⟨p, hp, hidx⟩ := Option.bind_eq_some_iff.1 hpeer
    obtain rfl : place = x.peer := (Prod.mk.inj heq).2
    obtain ⟨hlt, hid, -⟩ := List.idxOf?_eq_some_iff.1 hidx
    rw [List.length_map] at hlt
    rw [hp, Option.bind_some, List.getElem?_eq_getElem hlt]
    simpa using hid.symm

end History

open Engine in
/-- In every state that a shot comes to, whatever the order of the circuits, what a circuit has received
from another, followed by what is under way between them, is what that one has sent to it. -/
theorem relayed_in_order [Scalar R] [DrawSource σ] {maxQubits : Nat} {group : List RunRequest}
    {l : Layout R} (hl : Layout.ofGroup maxQubits group = .ok l) (source : σ) :
    (∃ deeds, History l source deeds (settle (l.members.map (·.tasks)) (.start l source)).1
      (settle (l.members.map (·.tasks)) (.start l source)).2) ∧
    ∀ deeds work s, History l source deeds work s →
      (∀ (own : Nat) r, group[own]? = some r → ∃ left, work[own]? = some left ∧
        (doneBy own deeds).map (·.instruction) ++ left.map (·.instruction) = r.instructions) ∧
      (∀ d ∈ deeds, d.task.instruction.relay = d.transfer.map (·.relay) ∧
        d.task.instruction.peer = d.transfer.bind fun x => (group[x.peer]?).map (·.id)) ∧
      (∀ kind p r, passed .receive kind r p deeds ++ s.queue kind p r =
        passed .send kind p r deeds) ∧
      (∀ kind p r (k : Nat) v, (passed .receive kind r p deeds)[k]? = some v →
        (passed .send kind p r deeds)[k]? = some v) ∧
      ∀ own (t : Task R) rest, (t.action.perform? own s = none ↔ ∃ kind peer,
          t.action.relayEnd? = some (⟨kind, .receive⟩, peer) ∧ s.queue kind peer own = []) ∧
        (t.action.perform? own s = none → advance own (t :: rest) s = (t :: rest, s)) := by
  refine ⟨History.settle l source, fun deeds work s h => ⟨fun own r hr => ?_, fun d hd => ?_,
    fun kind p r => h.passed_eq kind p r, fun kind p r k v hv => ?_, fun own t rest =>
      ⟨Action.perform?_eq_none_iff_queue, fun hnone => advance_of_none hnone rest⟩⟩⟩
  · obtain ⟨-, -, -, members, hplace, rfl⟩ := Layout.ofGroup_eq_ok.1 hl
    obtain ⟨m, hm, hrm⟩ := Layout.exists_placed (Layout.forall₂_of_place hplace) hr
    obtain ⟨left, hleft, hdone⟩ := h.inTurn hm
    exact ⟨left, hleft, by rw [← List.map_append, hdone, hrm.instructions_eq]⟩
  · obtain ⟨r, -, -, hrelay⟩ := h.relays_as_instruction hl hd
    exact hrelay
  · obtain ⟨hlt, -⟩ := List.getElem?_eq_some_iff.1 hv
    rw [← h.passed_eq, List.getElem?_append_left hlt, hv]

open Engine in
/-- A bit that is sent and received is the same at both ends. -/
theorem relayed_bit :
    ∃ l : Layout Float, Layout.ofGroup 2 [sender, receiver] = .ok l ∧
      ∃ deeds work s b, History l (⟨[]⟩ : GivenDraws) deeds work s ∧ work = [[], []] ∧
        passed .send .classical 0 1 deeds = [.bit b] ∧
        passed .receive .classical 1 0 deeds ++ s.queue .classical 0 1 = [.bit b] := by
  let l : Layout Float :=
    { members := [⟨"a", 0, [⟨sending, .sendBit 0 1⟩]⟩, ⟨"b", 1, [⟨receiving, .receiveBit 0 0⟩]⟩]
      blocks := 2
      channels := 0 }
  have hl : Layout.ofGroup 2 [sender, receiver] = .ok l := rfl
  have hsend : History l (⟨[]⟩ : GivenDraws) _ _ _ :=
    .step .start (show _[0]? = _ from rfl) (.sendBit 0 1)
  have hreceive : History l (⟨[]⟩ : GivenDraws) _ _ _ :=
    hsend.step (show _[1]? = _ from rfl) (.receiveBit 0 rfl)
  refine ⟨l, hl, _, _, _, _, hreceive, rfl, rfl, ?_⟩
  rw [((relayed_in_order hl ⟨[]⟩).2 _ _ _ hreceive).2.2.1]
  rfl

end QuantumRelay
