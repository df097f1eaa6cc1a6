import QuantumRelay.Proofs.Engine.Channels
import QuantumRelay.Proofs.Engine.Coverage
import QuantumRelay.Proofs.Engine.Fault
import QuantumRelay.Proofs.Engine.RoundRobin

/-!
# Groups that are taken can be run

A group that passes the checks (`Layout.Accepts`) is laid out, since every valid instruction is an
action, so its run ends with counts or in a deadlock.

While it runs, no index is out of range (`History.inRange`): the qubits of a circuit are in its block,
the channels come in turn and there are enough of them, classical bits are as many as the circuit says,
and operations use amplitudes of the state only (`Operation.InRange`).
-/

namespace QuantumRelay

open BasisIndex

variable {σ R : Type}

/-! ### Operations on a state of some width -/

namespace Operation

theorem fits_of_lt {operation : Operation R} {width : Nat} (h : ∀ q ∈ operation.qubits, q < width) :
    operation.fits width = true := by
  cases operation <;> simp_all [fits, qubits]

/-- An operation uses no index out of range on a state of some width. -/
structure InRange [Scalar R] (width : Nat) (operation : Operation R) : Prop where
  qubit_lt : ∀ q ∈ operation.qubits, q < width
  qubits_nodup : operation.qubits.Nodup
  square : operation.Square
  fits : operation.fits width = true
  /-- New amplitudes are made of amplitudes that the state has. -/
  entry_congr : ∀ a b : Nat → Complex R, (∀ j, j < count width → a j = b j) →
    ∀ i, i < count width → operation.entry width a i = operation.entry width b i

variable [Scalar R] {operation : Operation R} {width : Nat}

theorem inRange (hqubits : ∀ q ∈ operation.qubits, q < width) (hnodup : operation.qubits.Nodup)
    (hsquare : operation.Square) : operation.InRange width where
  qubit_lt := hqubits
  qubits_nodup := hnodup
  square := hsquare
  fits := fits_of_lt hqubits
  entry_congr _ _ h _ hi :=
    (localTo_entry (B := {q | q ∈ operation.qubits}) (fun _ hq => hq) width).congr_of_lt hqubits h hi

theorem inRange_flip {qubit : Nat} (h : qubit < width) :
    (flipIf [] qubit : Operation R).InRange width := by
  apply inRange
  · simp [qubits, h]
  · simp [qubits]
  · trivial

theorem inRange_swap {left right : Nat} (hleft : left < width) (hright : right < width)
    (hne : left ≠ right) : (swapIf [] left right : Operation R).InRange width := by
  apply inRange
  · simp [qubits, hleft, hright]
  · simp [qubits, hne]
  · trivial

end Operation

/-! ### Actions -/

theorem Shot.mem_underWay_of_take? {s : Shot σ R} {sender receiver c : Nat} {channels : Mail Nat}
    (h : s.channels.take? sender receiver = some (c, channels)) : c ∈ s.underWay := by
  obtain ⟨⟨content, letters⟩, hletters, heq⟩ := Option.map_eq_some_iff.1 h
  obtain ⟨rfl, rfl⟩ := Prod.mk.inj heq
  exact (Mail.perm_takeFrom hletters).mem_iff.1 List.mem_cons_self

namespace Action

def operation? : Action R → Option (Operation R)
  | apply operation => some operation
  | applyIf _ operation => some operation
  | applyIfReceived _ operation => some operation
  | loadReceived _ _ operation => some operation
  | _ => none

def clbit? : Action R → Option Nat
  | measure _ clbit => some clbit
  | receiveBit clbit _ => some clbit
  | _ => none

variable [Scalar R] {i : Instruction} {ids : List String} {offset : Nat} {a : Action R}

theorem actsOn_ofInstruction (h : ofInstruction ids offset i = .ok a) {operation : Operation R}
    (ho : a.operation? = some operation) : ∃ targets,
      targets.Sublist (i.qubits.map fun q => offset + q.toNat) ∧ operation.ActsOn targets := by
  unfold ofInstruction at h
  dsimp only at h
  generalize (i.qubits.map fun q => offset + q.toNat) = qubits at *
  split at h
  case h_7 =>
    cases ofGate_cases h with
    | apply hop => exact ⟨_, .refl _, Option.some.inj ho ▸ Operation.actsOn_named hop⟩
    | applyIf hqubits hop =>
      exact ⟨_, hqubits ▸ List.sublist_cons_self .., Option.some.inj ho ▸ Operation.actsOn_named hop⟩
    | applyIfReceived hpeer hop => exact ⟨_, .refl _, Option.some.inj ho ▸ Operation.actsOn_named hop⟩
    | loadReceived hpeer hqubits hop =>
      exact ⟨_, hqubits ▸ List.sublist_cons_self .., Option.some.inj ho ▸ Operation.actsOn_named hop⟩
  all_goals
    obtain rfl := Except.ok.inj h
    cases ho

theorem clbit_ofInstruction (h : ofInstruction ids offset i = .ok a) {c : Nat}
    (hc : a.clbit? = some c) : ∃ p ∈ i.clbits, c = p.toNat := by
  unfold ofInstruction at h
  dsimp only at h
  split at h
  case h_7 => cases ofGate_cases h <;> cases hc
  case h_1 p _ _ hclbits =>
    obtain rfl := Except.ok.inj h
    exact ⟨p, by simp [hclbits], (Option.some.inj hc).symm⟩
  case h_4 p _ _ hclbits =>
    obtain rfl := Except.ok.inj h
    exact ⟨p, by simp [hclbits], (Option.some.inj hc).symm⟩
  all_goals
    obtain rfl := Except.ok.inj h
    cases hc

/-- What an action of the circuit at place `own` uses of a shot is there: qubits and amplitudes of the
joint state, and classical bits of the circuit. -/
def InRange (own : Nat) (s : Shot σ R) (a : Action R) : Prop :=
  (∀ c, a.clbit? = some c → ∃ bits, s.clbits[own]? = some bits ∧ c < bits.length) ∧
  match a with
  | apply operation => operation.InRange s.state.width
  | measure qubit _ => qubit < s.state.width
  | reset qubit => (Operation.flipIf [] qubit : Operation R).InRange s.state.width
  | applyIf control operation => control < s.state.width ∧ operation.InRange s.state.width
  | sendBit qubit _ => qubit < s.state.width
  | receiveBit _ _ => True
  | applyIfReceived _ operation => operation.InRange s.state.width
  | loadReceived _ control operation =>
    (Operation.flipIf [] control : Operation R).InRange s.state.width ∧
      operation.InRange s.state.width
  | sendQubit qubit _ =>
    (Operation.swapIf [] qubit s.nextChannel : Operation R).InRange s.state.width
  | receiveQubit qubit peer =>
    (Operation.flipIf [] qubit : Operation R).InRange s.state.width ∧
      ∀ c channels, s.channels.take? peer own = some (c, channels) →
        (Operation.swapIf [] qubit c : Operation R).InRange s.state.width

variable {own : Nat} {s : Shot σ R}

theorem inRange {blocks : Nat} (hblocks : blocks ≤ s.state.width)
    (hclbit : ∀ c, a.clbit? = some c → ∃ bits, s.clbits[own]? = some bits ∧ c < bits.length)
    (hqubits : ∀ q ∈ a.qubits, q < blocks)
    (hoperation : ∀ operation, a.operation? = some operation →
      operation.qubits.Nodup ∧ operation.Square)
    (hsend : a.sendsQubit = true → blocks ≤ s.nextChannel ∧ s.nextChannel < s.state.width)
    (hreceive : ∀ c ∈ s.underWay, blocks ≤ c ∧ c < s.state.width) : a.InRange own s := by
  have hlt (q : Nat) (hq : q ∈ a.qubits) : q < s.state.width := (hqubits q hq).trans_le hblocks
  refine ⟨hclbit, ?_⟩
  cases a with
  | apply operation =>
    obtain ⟨hnodup, hsquare⟩ := hoperation operation rfl
    exact Operation.inRange hlt hnodup hsquare
  | measure qubit clbit => exact hlt qubit List.mem_cons_self
  | reset qubit => exact Operation.inRange_flip (hlt qubit List.mem_cons_self)
  | applyIf control operation =>
    obtain ⟨hcontrol, htargets⟩ := List.forall_mem_cons.1 hlt
    obtain ⟨hnodup, hsquare⟩ := hoperation operation rfl
    exact ⟨hcontrol, Operation.inRange htargets hnodup hsquare⟩
  | sendBit qubit peer => exact hlt qubit List.mem_cons_self
  | receiveBit clbit peer => trivial
  | applyIfReceived peer operation =>
    obtain ⟨hnodup, hsquare⟩ := hoperation operation rfl
    exact Operation.inRange hlt hnodup hsquare
  | loadReceived peer control operation =>
    obtain ⟨hcontrol, htargets⟩ := List.forall_mem_cons.1 hlt
    obtain ⟨hnodup, hsquare⟩ := hoperation operation rfl
    exact ⟨Operation.inRange_flip hcontrol, Operation.inRange htargets hnodup hsquare⟩
  | sendQubit qubit peer =>
    obtain ⟨hchannel, hnext⟩ := hsend rfl
    have hqubit : qubit < blocks := hqubits qubit List.mem_cons_self
    exact Operation.inRange_swap (hqubit.trans_le hblocks) hnext (by omega)
  | receiveQubit qubit peer =>
    have hqubit : qubit < blocks := hqubits qubit List.mem_cons_self
    refine ⟨Operation.inRange_flip (hqubit.trans_le hblocks), fun c channels htake => ?_⟩
    obtain ⟨hchannel, hc⟩ := hreceive c (Shot.mem_underWay_of_take? htake)
    exact Operation.inRange_swap (hqubit.trans_le hblocks) hc (by omega)

end Action

/-! ### Shots -/

namespace Layout

variable [Scalar R] {group : List RunRequest} {own : Nat} {r : RunRequest} {m : Member R}

theorem Carries.clbit_lt (h : Carries group own r m) {t : Task R} (ht : t ∈ m.tasks) {c : Nat}
    (hc : t.action.clbit? = some c) : c < m.numClbits := by
  obtain ⟨p, hp, rfl⟩ := Action.clbit_ofInstruction (h.action_eq t ht) hc
  obtain ⟨s, hs⟩ := h.valid t ht
  obtain ⟨-, -, hindices, -⟩ := Instruction.validate_eq_ok.1 hs
  rw [h.numClbits_eq]
  exact (Instruction.badIndices?_eq_none_iff.1 hindices).2.2 p hp

theorem Carries.operation_nodup (h : Carries group own r m) {t : Task R} (ht : t ∈ m.tasks)
    {operation : Operation R} (ho : t.action.operation? = some operation) :
    operation.qubits.Nodup ∧ operation.Square := by
  obtain ⟨s, hs⟩ := h.valid t ht
  obtain ⟨-, ⟨arity, -, hindices⟩, -⟩ := Instruction.validate_eq_ok.1 hs
  have hnodup := (Instruction.badIndices?_eq_none_iff.1 hindices).2.1
  obtain ⟨targets, hsub, hacts⟩ := Action.actsOn_ofInstruction (h.action_eq t ht) ho
  refine ⟨hacts.perm.nodup_iff.2 (List.Nodup.sublist hsub (hnodup.map ?_)), hacts.square⟩
  intro p q hpq
  exact UInt32.toNat_inj.1 (Nat.add_left_cancel hpq)

/-- What is checked of a group before it is laid out on at most `maxQubits` qubits. -/
structure Accepts (maxQubits : Nat) (group : List RunRequest) : Prop where
  distinct : Names.firstRepeated? [] (group.map (·.id)) = none
  checked : checkRequests (group.map (·.id)) group = .ok ()
  fits : qubitsOf group + channelsOf group ≤ maxQubits

/-- A group is laid out if it passes the checks: then all its instructions are actions. -/
theorem exists_ofGroup_iff {maxQubits : Nat} :
    (∃ l : Layout R, ofGroup maxQubits group = .ok l) ↔ Accepts maxQubits group := by
  constructor
  · rintro ⟨l, hl⟩
    obtain ⟨hids, hrunnable, hfits, -⟩ := ofGroup_eq_ok.1 hl
    exact ⟨Names.firstRepeated?_eq_none_iff.2 ⟨hids, fun _ _ => List.not_mem_nil⟩,
      checkRequests_eq_ok.2 hrunnable, hfits⟩
  · rintro ⟨hdistinct, hchecked, hfits⟩
    have hrunnable := checkRequests_eq_ok.1 hchecked
    have hactions : ∀ r ∈ group, ∀ i ∈ r.instructions, ∀ offset,
        ∃ a : Action R, Action.ofInstruction (group.map (·.id)) offset i = .ok a := by
      intro r hr i hi offset
      obtain ⟨⟨s, hs⟩, hpeer⟩ := hrunnable r hr i hi
      exact Action.exists_ofInstruction hs hpeer offset
    obtain ⟨members, hplace⟩ := exists_place hactions 0
    exact ⟨_, ofGroup_eq_ok.2 ⟨(Names.firstRepeated?_eq_none_iff.1 hdistinct).1, hrunnable, hfits,
      members, hplace, rfl⟩⟩

end Layout

namespace History

variable [Scalar R] [DrawSource σ] {maxQubits : Nat} {group : List RunRequest} {l : Layout R}
  {source : σ} {deeds : List (Deed R)} {work : List (List (Task R))} {s : Shot σ R} {own : Nat}
  {t : Task R} {rest : List (Task R)}

theorem widths_eq (h : History l source deeds work s) :
    s.widths = l.members.map (·.numClbits) := by
  induction h with
  | start => simp [Shot.widths, Shot.start, Function.comp_def]
  | step h hwork hstep ih =>
    rw [← ih]
    exact Action.perform?_widths (Action.perform?_eq_some_iff.2 ⟨_, hstep⟩)

theorem instruction_eq (h : History l source deeds work s)
    (hl : Layout.ofGroup maxQubits group = .ok l) (hwork : work[own]? = some (t :: rest)) :
    ∃ r, group[own]? = some r ∧
      r.instructions[(doneBy own deeds).length]? = some t.instruction := by
  obtain ⟨m, hm, -⟩ := h.mem_of_work hwork
  obtain ⟨left, hleft, hdone⟩ := h.inTurn hm
  obtain rfl : left = t :: rest := Option.some.inj (hleft.symm.trans hwork)
  obtain ⟨r, hr⟩ := Layout.exists_carries hl hm
  refine ⟨r, hr.request, ?_⟩
  rw [← hr.instructions_eq, ← hdone]
  simp

/-- No step uses an index out of range. -/
theorem inRange (h : History l source deeds work s) (hl : Layout.ofGroup maxQubits group = .ok l)
    (hwork : work[own]? = some (t :: rest)) : t.action.InRange own s := by
  have hturn := h.channelsInTurn hl
  obtain ⟨m, hm, hmem⟩ := h.mem_of_work hwork
  obtain ⟨r, hr⟩ := Layout.exists_carries hl hm
  have ht : t ∈ m.tasks := hmem t List.mem_cons_self
  have hblocks : l.blocks ≤ l.width := Nat.le_add_right ..
  have hleft := hturn.left
  have hnext := hturn.next_eq
  rw [← hturn.width_eq] at hblocks hleft
  refine Action.inRange hblocks ?_ (h.qubit_lt hl hwork) ?_ ?_ ?_
  · intro c hc
    have hwidth : (s.clbits[own]?).map (·.length) = some m.numClbits := by
      have hwidths := congrArg (·[own]?) h.widths_eq
      simpa [Shot.widths, hm] using hwidths
    obtain ⟨bits, hbits, hlength⟩ := Option.map_eq_some_iff.1 hwidth
    exact ⟨bits, hbits, hlength ▸ hr.clbit_lt ht hc⟩
  · intro operation ho
    exact hr.operation_nodup ht ho
  · intro hsends
    rw [sendsLeft_set hwork, if_pos hsends] at hleft
    omega
  · intro c hc
    have hsent := hturn.mem_sent_iff.1 (hturn.mem_sent_of_mem_underWay hc)
    omega

end History

/-! ### Runs -/

namespace Engine

/-- A run that ends with counts or in a deadlock. -/
def Ends (result : Except SimulationError (List Counts)) : Prop :=
  (∃ counts, result = .ok counts) ∨ ∃ waits, result = .error (.deadlock waits)

theorem ends_simulate [Scalar R] [DrawSource σ] {maxQubits : Nat} {group : List RunRequest}
    (h : Layout.Accepts maxQubits group) (source : σ) {config : RunConfig}
    (hmethod : config.method = .automatic ∨ config.method = .statevector) :
    Ends (simulate R maxQubits source group config) := by
  obtain ⟨l, hl⟩ := (Layout.exists_ofGroup_iff (R := R)).2 h
  have hrun : simulate R maxQubits source group config =
      runShots l config.shots.toNat source (group.map fun _ => {}) := by
    unfold simulate
    rw [if_pos (by simpa using hmethod), hl]
    rfl
  rw [hrun]
  cases hshots : runShots l config.shots.toNat source (group.map fun _ => {}) with
  | ok counts => exact .inl ⟨counts, rfl⟩
  | error e =>
    obtain ⟨waits, rfl⟩ := deadlock_of_runShots hshots
    exact .inr ⟨waits, rfl⟩

/-- A valid instruction is an action wherever its circuit is placed. So a group that passes the checks
is laid out, and its run ends with counts or in a deadlock, whatever is drawn. In every state that a shot
comes to, the next instruction of a circuit is one of its own, uses nothing that is out of range, and
either can be carried out or waits for a letter; with less than 64 qubits, indices of amplitudes are
words. -/
theorem accepted_runs [Scalar R] [DrawSource σ] {maxQubits : Nat} {group : List RunRequest}
    (hword : maxQubits < 64) (haccepted : Layout.Accepts maxQubits group) (source : σ) :
    (∀ (i : Instruction) (numQubits numClbits : UInt32) (owner : String) (spec : Spec),
      i.validate numQubits numClbits owner = .ok spec →
      ∀ (ids : List String) (offset : Nat), (∀ p, i.peer = some p → p ∈ ids) →
        ∃ a : Action R, Action.ofInstruction ids offset i = .ok a) ∧
    (∀ config : RunConfig, config.method = .automatic ∨ config.method = .statevector →
      Ends (simulate R maxQubits source group config) ∧
      ∀ otherwise, Ends (run maxQubits otherwise group config)) ∧
    ∃ l : Layout R, Layout.ofGroup maxQubits group = .ok l ∧
      l.width < 64 ∧ count l.width < UInt64.size ∧
      (∃ deeds, History l source deeds (settle (l.members.map (·.tasks)) (.start l source)).1
        (settle (l.members.map (·.tasks)) (.start l source)).2) ∧
      ∀ deeds work s, History l source deeds work s → s.state.width = l.width ∧
        ∀ own t rest, work[own]? = some (t :: rest) →
          (∃ r, group[own]? = some r ∧
            r.instructions[(doneBy own deeds).length]? = some t.instruction) ∧
          t.action.InRange own s ∧
          (t.action.perform? own s = none → ∃ kind peer,
            t.action.relayEnd? = some (⟨kind, .receive⟩, peer) ∧ s.waiting kind peer own = 0) := by
  refine ⟨fun i numQubits numClbits owner spec hvalid ids offset hpeer =>
    Action.exists_ofInstruction hvalid hpeer offset, fun config hmethod =>
    ⟨ends_simulate haccepted source hmethod, fun otherwise => ends_simulate haccepted _ hmethod⟩, ?_⟩
  obtain ⟨l, hl⟩ := (Layout.exists_ofGroup_iff (R := R)).2 haccepted
  have hwidth : l.width < 64 := by
    obtain ⟨-, -, hfits, members, -, rfl⟩ := Layout.ofGroup_eq_ok.1 hl
    exact Nat.lt_of_le_of_lt hfits hword
  refine ⟨l, hl, hwidth, Nat.pow_lt_pow_right (by decide) hwidth, History.settle l source, ?_⟩
  intro deeds work s h
  refine ⟨(h.channelsInTurn hl).width_eq, fun own t rest hwork => ?_⟩
  exact ⟨h.instruction_eq hl hwork, h.inRange hl hwork, Action.perform?_eq_none_iff.1⟩

/-- A bit that is sent and received, on the default number of qubits. -/
theorem relay_runs : Layout.Accepts defaultMaxQubits [sender, receiver] ∧
    Ends (simulate Float defaultMaxQubits (⟨[]⟩ : GivenDraws) [sender, receiver] {}) := by
  have h : Layout.Accepts defaultMaxQubits [sender, receiver] := ⟨rfl, rfl, by decide⟩
  exact ⟨h, ((accepted_runs (R := Float) (by decide) h (⟨[]⟩ : GivenDraws)).2.1 _ (.inl rfl)).1⟩

end Engine

end QuantumRelay
