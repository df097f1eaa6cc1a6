import QuantumRelay.Proofs.Engine.Outcome

/-!
# Histories of a shot

`Action.Steps` says what a task does, case by case: which value it sends or receives, and what becomes
of the shot. It is the relation behind `Action.perform?` (`perform?_eq_some_iff`).

A `History` is what circuits have carried out since a shot began, one task after the other, in any
order in which no circuit has to wait. Each circuit carries out its own tasks in turn
(`History.inTurn`). The turns and rounds of a shot are such a history (`History.settle`), so what every
step keeps holds of every state that a shot comes to.
-/

namespace QuantumRelay

variable {σ R : Type}

inductive Value where
  | bit (b : Bool)
  /-- A channel with the state of a qubit in it. -/
  | channel (c : Nat)
deriving DecidableEq

def Value.kind : Value → RelayKind
  | .bit _ => .classical
  | .channel _ => .quantum

/-- What a step sends or receives, with the place of the circuit at the other end. -/
structure Transfer where
  role : RelayRole
  peer : Nat
  content : Value
deriving DecidableEq

def Transfer.relay (x : Transfer) : Relay := ⟨x.content.kind, x.role⟩

def Shot.queue (s : Shot σ R) (kind : RelayKind) (sender receiver : Nat) : List Value :=
  match kind with
  | .classical => (s.bits.queue sender receiver).map .bit
  | .quantum => (s.channels.queue sender receiver).map .channel

/-! ### Steps -/

namespace Action

variable [Scalar R] [DrawSource σ]

/-- An action of the circuit at place `own` sends or receives something, if it does, and changes the
shot. -/
inductive Steps (own : Nat) (s : Shot σ R) : Action R → Option Transfer → Shot σ R → Prop where
  | apply (operation : Operation R) : Steps own s (.apply operation) none (s.apply operation)
  | measure (qubit clbit : Nat) : Steps own s (.measure qubit clbit) none
      ((s.measure qubit).2.write own clbit (s.measure qubit).1)
  | reset (qubit : Nat) : Steps own s (.reset qubit) none (s.reset qubit)
  | applyIf (control : Nat) (operation : Operation R) : Steps own s (.applyIf control operation) none
      (if (s.measure control).1 then (s.measure control).2.apply operation
        else (s.measure control).2)
  | sendBit (qubit peer : Nat) : Steps own s (.sendBit qubit peer)
      (some ⟨.send, peer, .bit (s.measure qubit).1⟩)
      { (s.measure qubit).2 with bits := s.bits.post own peer (s.measure qubit).1 }
  | receiveBit {b : Bool} {bits : Mail Bool} (clbit : Nat) {peer : Nat}
      (h : s.bits.take? peer own = some (b, bits)) : Steps own s (.receiveBit clbit peer)
      (some ⟨.receive, peer, .bit b⟩) ({ s with bits }.write own clbit b)
  | applyIfReceived {b : Bool} {bits : Mail Bool} {peer : Nat} (operation : Operation R)
      (h : s.bits.take? peer own = some (b, bits)) : Steps own s (.applyIfReceived peer operation)
      (some ⟨.receive, peer, .bit b⟩) (if b then { s with bits }.apply operation else { s with bits })
  | loadReceived {b : Bool} {bits : Mail Bool} {peer : Nat} (control : Nat) (operation : Operation R)
      (h : s.bits.take? peer own = some (b, bits)) :
      Steps own s (.loadReceived peer control operation) (some ⟨.receive, peer, .bit b⟩)
      (if b then (({ s with bits }.reset control).apply (.flipIf [] control)).apply operation
        else { s with bits }.reset control)
  | sendQubit (qubit peer : Nat) : Steps own s (.sendQubit qubit peer)
      (some ⟨.send, peer, .channel s.nextChannel⟩)
      { s.swap qubit s.nextChannel with
        channels := s.channels.post own peer s.nextChannel, nextChannel := s.nextChannel + 1 }
  | receiveQubit {channel : Nat} {channels : Mail Nat} (qubit : Nat) {peer : Nat}
      (h : s.channels.take? peer own = some (channel, channels)) :
      Steps own s (.receiveQubit qubit peer) (some ⟨.receive, peer, .channel channel⟩)
      (({ s with channels }.reset qubit).swap qubit channel)

variable {own : Nat} {s s' : Shot σ R} {a : Action R} {x : Option Transfer}

theorem perform?_eq_some_iff : a.perform? own s = some s' ↔ ∃ x, a.Steps own s x s' := by
  constructor
  · intro h
    cases a <;> simp only [perform?, Option.some.injEq, Option.map_eq_some_iff, Prod.exists] at h
    case receiveBit =>
      obtain ⟨b, bits, htake, rfl⟩ := h
      exact ⟨_, .receiveBit _ htake⟩
    case applyIfReceived =>
      obtain ⟨b, bits, htake, rfl⟩ := h
      exact ⟨_, .applyIfReceived _ htake⟩
    case loadReceived =>
      obtain ⟨b, bits, htake, rfl⟩ := h
      exact ⟨_, .loadReceived _ _ htake⟩
    case receiveQubit =>
      obtain ⟨channel, channels, htake, rfl⟩ := h
      exact ⟨_, .receiveQubit _ htake⟩
    all_goals
      subst h
      exact ⟨_, by constructor⟩
  · rintro ⟨x, h⟩
    cases h <;> simp [perform?, *]

theorem Steps.relayEnd? (h : a.Steps own s x s') :
    a.relayEnd? = x.map fun x => (x.relay, x.peer) := by
  cases h <;> rfl

end Action

/-! ### Histories -/

structure Deed (R : Type) where
  place : Nat
  task : Task R
  transfer : Option Transfer

variable [Scalar R] [DrawSource σ]

/-- What has been done since a shot began, the tasks that are left, and what the shot has become. -/
inductive History (l : Layout R) (source : σ) :
    List (Deed R) → List (List (Task R)) → Shot σ R → Prop where
  | start : History l source [] (l.members.map (·.tasks)) (.start l source)
  | step {deeds : List (Deed R)} {work : List (List (Task R))} {s s' : Shot σ R} {own : Nat}
      {t : Task R} {rest : List (Task R)} {x : Option Transfer}
      (h : History l source deeds work s) (hwork : work[own]? = some (t :: rest))
      (hstep : t.action.Steps own s x s') :
      History l source (deeds ++ [⟨own, t, x⟩]) (work.set own rest) s'

def doneBy (own : Nat) (deeds : List (Deed R)) : List (Task R) :=
  (deeds.filter (·.place = own)).map (·.task)

namespace History

variable {l : Layout R} {source : σ} {deeds : List (Deed R)} {work : List (List (Task R))}
  {s : Shot σ R}

theorem length_work (h : History l source deeds work s) : work.length = l.members.length := by
  induction h with
  | start => rw [List.length_map]
  | step _ _ _ ih => rw [List.length_set, ih]

theorem inTurn (h : History l source deeds work s) {own : Nat} {m : Member R}
    (hm : l.members[own]? = some m) :
    ∃ left, work[own]? = some left ∧ doneBy own deeds ++ left = m.tasks := by
  induction h with
  | start => exact ⟨m.tasks, by rw [List.getElem?_map, hm, Option.map_some], rfl⟩
  | @step deeds work s s' place t rest x h hwork hstep ih =>
    obtain ⟨left, hleft, hdone⟩ := ih
    by_cases hown : place = own
    · subst hown
      obtain rfl : left = t :: rest := Option.some.inj (hleft.symm.trans hwork)
      obtain ⟨hlt, -⟩ := List.getElem?_eq_some_iff.1 hwork
      refine ⟨rest, by rw [List.getElem?_set_self hlt], ?_⟩
      simpa [doneBy] using hdone
    · refine ⟨left, by rw [List.getElem?_set_ne hown, hleft], ?_⟩
      simpa [doneBy, hown] using hdone

theorem mem_of_work (h : History l source deeds work s) {own : Nat} {tasks : List (Task R)}
    (hwork : work[own]? = some tasks) :
    ∃ m, l.members[own]? = some m ∧ ∀ t ∈ tasks, t ∈ m.tasks := by
  obtain ⟨hlt, -⟩ := List.getElem?_eq_some_iff.1 hwork
  rw [h.length_work] at hlt
  have hm : l.members[own]? = some l.members[own] := List.getElem?_eq_getElem hlt
  obtain ⟨left, hleft, hdone⟩ := h.inTurn hm
  obtain rfl : tasks = left := Option.some.inj (hwork.symm.trans hleft)
  exact ⟨_, hm, fun t ht => hdone ▸ List.mem_append_right _ ht⟩

theorem mem_of_deed (h : History l source deeds work s) {d : Deed R} (hd : d ∈ deeds) :
    ∃ m, l.members[d.place]? = some m ∧ d.task ∈ m.tasks ∧
      d.task.action.relayEnd? = d.transfer.map fun x => (x.relay, x.peer) := by
  induction h with
  | start => cases hd
  | @step deeds work s s' own t rest x h hwork hstep ih =>
    rcases List.mem_append.1 hd with hd | hd
    · exact ih hd
    · obtain rfl := List.mem_singleton.1 hd
      obtain ⟨m, hm, hmem⟩ := h.mem_of_work hwork
      exact ⟨m, hm, hmem t List.mem_cons_self, hstep.relayEnd?⟩

/-! ### The histories of turns and rounds -/

theorem set_of_getElem? {α : Type} {xs : List α} {i : Nat} {a : α} (h : xs[i]? = some a) :
    xs.set i a = xs := by
  obtain ⟨hlt, rfl⟩ := List.getElem?_eq_some_iff.1 h
  exact List.set_getElem_self hlt

theorem advance (h : History l source deeds work s) {own : Nat} {tasks : List (Task R)}
    (hwork : work[own]? = some tasks) : ∃ more, History l source (deeds ++ more)
      (work.set own (Engine.advance own tasks s).1) (Engine.advance own tasks s).2 := by
  induction tasks generalizing deeds work s with
  | nil =>
    refine ⟨[], ?_⟩
    rw [List.append_nil, Engine.advance, set_of_getElem? hwork]
    exact h
  | cons t rest ih =>
    rw [Engine.advance]
    split
    · next s' hs =>
      obtain ⟨x, hstep⟩ := Action.perform?_eq_some_iff.1 hs
      obtain ⟨hlt, -⟩ := List.getElem?_eq_some_iff.1 hwork
      obtain ⟨more, hmore⟩ := ih (h.step hwork hstep) (List.getElem?_set_self hlt)
      refine ⟨⟨own, t, x⟩ :: more, ?_⟩
      rwa [List.append_assoc, List.singleton_append, List.set_set] at hmore
    · refine ⟨[], ?_⟩
      rw [List.append_nil, set_of_getElem? hwork]
      exact h

theorem round {done work : List (List (Task R))} (h : History l source deeds (done ++ work) s) :
    ∃ more, History l source (deeds ++ more)
      (done ++ (Engine.round done.length work s).1) (Engine.round done.length work s).2 := by
  induction work generalizing done deeds s with
  | nil => exact ⟨[], by simpa [Engine.round] using h⟩
  | cons tasks rest ih =>
    have hwork : (done ++ tasks :: rest)[done.length]? = some tasks := by simp
    obtain ⟨first, hfirst⟩ := h.advance hwork
    generalize hadvance : Engine.advance done.length tasks s = after at hfirst
    obtain ⟨left, s'⟩ := after
    have hnext : History l source (deeds ++ first) ((done ++ [left]) ++ rest) s' := by
      simpa using hfirst
    obtain ⟨more, hmore⟩ := ih hnext
    refine ⟨first ++ more, ?_⟩
    rw [Engine.round, hadvance]
    simpa using hmore

/-- The rounds of a shot are a history. -/
theorem settle (l : Layout R) (source : σ) : ∃ deeds, History l source deeds
    (Engine.settle (l.members.map (·.tasks)) (.start l source)).1
    (Engine.settle (l.members.map (·.tasks)) (.start l source)).2 := by
  refine Engine.settle_keeps (P := fun work s => ∃ deeds, History l source deeds work s)
    (fun work s hkept => ?_) _ _ ⟨[], .start⟩
  obtain ⟨deeds, h⟩ := hkept
  have hall : History l source deeds ([] ++ work) s := h
  obtain ⟨more, hmore⟩ := round hall
  exact ⟨deeds ++ more, hmore⟩

end History

end QuantumRelay
