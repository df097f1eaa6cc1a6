import QuantumRelay.Engine.Run

/-!
# What a step of a shot touches

Operations on the joint state leave the classical bits and the mail alone, so a step changes the mail
in one way at most, which its `relayEnd` tells: it posts a letter, or it takes one, or it does neither.
`perform?_eq_none_iff` says when a circuit has to wait, and `perform?_waiting` what a step does to the
letters under way.
-/

namespace QuantumRelay

variable {σ R : Type}

namespace Shot

section fields

variable (s : Shot σ R) (operation : Operation R) (qubit other own clbit : Nat) (b : Bool)

@[simp] theorem write_bits : (s.write own clbit b).bits = s.bits := rfl
@[simp] theorem write_channels : (s.write own clbit b).channels = s.channels := rfl

variable [Scalar R]

@[simp] theorem apply_clbits : (s.apply operation).clbits = s.clbits := rfl
@[simp] theorem apply_bits : (s.apply operation).bits = s.bits := rfl
@[simp] theorem apply_channels : (s.apply operation).channels = s.channels := rfl
@[simp] theorem swap_clbits : (s.swap qubit other).clbits = s.clbits := rfl
@[simp] theorem swap_bits : (s.swap qubit other).bits = s.bits := rfl
@[simp] theorem swap_channels : (s.swap qubit other).channels = s.channels := rfl

variable [DrawSource σ]

@[simp] theorem measure_clbits : (s.measure qubit).2.clbits = s.clbits := rfl
@[simp] theorem measure_bits : (s.measure qubit).2.bits = s.bits := rfl
@[simp] theorem measure_channels : (s.measure qubit).2.channels = s.channels := rfl
@[simp] theorem reset_clbits : (s.reset qubit).clbits = s.clbits := rfl
@[simp] theorem reset_bits : (s.reset qubit).bits = s.bits := rfl
@[simp] theorem reset_channels : (s.reset qubit).channels = s.channels := rfl

end fields

def waiting (s : Shot σ R) (kind : RelayKind) (sender receiver : Nat) : Nat :=
  match kind with
  | .classical => (s.bits.queue sender receiver).length
  | .quantum => (s.channels.queue sender receiver).length

@[simp] theorem waiting_classical (s : Shot σ R) (sender receiver : Nat) :
    s.waiting .classical sender receiver = (s.bits.queue sender receiver).length := rfl

@[simp] theorem waiting_quantum (s : Shot σ R) (sender receiver : Nat) :
    s.waiting .quantum sender receiver = (s.channels.queue sender receiver).length := rfl

def widths (s : Shot σ R) : List Nat := s.clbits.map (·.length)

theorem widths_write (s : Shot σ R) (own clbit : Nat) (b : Bool) :
    (s.write own clbit b).widths = s.widths := by
  apply List.ext_getElem?
  intro place
  rw [widths, write, List.getElem?_map, List.getElem?_modify, widths, List.getElem?_map]
  cases s.clbits[place]? with
  | none => rfl
  | some bits =>
    by_cases h : own = place
    · simp [h]
    · simp [h]

theorem widths_eq {s t : Shot σ R} (h : t.clbits = s.clbits) : t.widths = s.widths := by
  rw [widths, widths, h]

end Shot

/-! ### Taking a letter -/

namespace Mail

variable {α : Type}

theorem take?_eq_none_iff {m : Mail α} {sender receiver : Nat} :
    m.take? sender receiver = none ↔ m.queue sender receiver = [] := by
  have h := m.queue_take? sender receiver
  by_cases hq : m.queue sender receiver = []
  · rw [if_pos hq, Option.map_eq_none_iff] at h
    simp [h, hq]
  · rw [if_neg hq, Option.map_eq_some_iff] at h
    obtain ⟨p, hp, -⟩ := h
    simp [hp, hq]

theorem queue_of_take? {m left : Mail α} {sender receiver : Nat} {content : α}
    (h : m.take? sender receiver = some (content, left)) :
    m.queue sender receiver = content :: left.queue sender receiver := by
  have hq := m.queue_take? sender receiver
  rw [h, Option.map_some] at hq
  split at hq
  · cases hq
  · exact (Option.some.inj hq).symm

theorem queue_of_takeFrom {letters left : List (Letter α)} {sender receiver s r : Nat} {content : α}
    (hne : ¬(s = sender ∧ r = receiver))
    (h : takeFrom sender receiver letters = some (content, left)) :
    (⟨left⟩ : Mail α).queue s r = (⟨letters⟩ : Mail α).queue s r := by
  induction letters generalizing left with
  | nil => cases h
  | cons l rest ih =>
    rw [takeFrom] at h
    split at h
    · next hl =>
      obtain ⟨rfl, rfl⟩ := Prod.mk.inj (Option.some.inj h)
      have hother : ¬(l.sender = s ∧ l.receiver = r) := by
        rintro ⟨rfl, rfl⟩
        exact hne (by simpa using hl)
      simp [queue, hother]
    · obtain ⟨⟨c, more⟩, hmore, heq⟩ := Option.map_eq_some_iff.1 h
      obtain ⟨rfl, rfl⟩ := Prod.mk.inj heq
      have hrest := ih hmore
      by_cases hl : l.sender = s ∧ l.receiver = r
      · simpa [queue, hl] using hrest
      · simpa [queue, hl] using hrest

theorem queue_of_take?_of_ne {m left : Mail α} {sender receiver s r : Nat} {content : α}
    (hne : ¬(s = sender ∧ r = receiver)) (h : m.take? sender receiver = some (content, left)) :
    left.queue s r = m.queue s r := by
  obtain ⟨⟨c, letters⟩, hl, heq⟩ := Option.map_eq_some_iff.1 h
  obtain ⟨rfl, rfl⟩ := Prod.mk.inj heq
  exact queue_of_takeFrom hne hl

theorem queue_post (m : Mail α) (sender receiver s r : Nat) (content : α) :
    (m.post sender receiver content).queue s r =
      m.queue s r ++ if sender = s ∧ receiver = r then [content] else [] := by
  by_cases h : s = sender ∧ r = receiver
  · obtain ⟨rfl, rfl⟩ := h
    simp [queue_post_self]
  · rw [queue_post_of_ne m content h, if_neg (fun h' => h ⟨h'.1.symm, h'.2.symm⟩), List.append_nil]

theorem append_queue_of_take? {m left : Mail α} {sender receiver : Nat} {content : α}
    (h : m.take? sender receiver = some (content, left)) (s r : Nat) :
    (if sender = s ∧ receiver = r then [content] else []) ++ left.queue s r = m.queue s r := by
  by_cases hsr : s = sender ∧ r = receiver
  · obtain ⟨rfl, rfl⟩ := hsr
    simp [queue_of_take? h]
  · rw [queue_of_take?_of_ne hsr h, if_neg (fun h' => hsr ⟨h'.1.symm, h'.2.symm⟩), List.nil_append]

theorem length_queue_post (m : Mail α) (sender receiver s r : Nat) (content : α) :
    ((m.post sender receiver content).queue s r).length =
      (m.queue s r).length + if s = sender ∧ r = receiver then 1 else 0 := by
  rw [queue_post, List.length_append, apply_ite List.length]
  simp only [List.length_singleton, List.length_nil, eq_comm]

theorem length_queue_of_take? {m left : Mail α} {sender receiver : Nat} {content : α}
    (h : m.take? sender receiver = some (content, left)) (s r : Nat) :
    (left.queue s r).length + (if s = sender ∧ r = receiver then 1 else 0) =
      (m.queue s r).length := by
  rw [← append_queue_of_take? h s r, List.length_append, apply_ite List.length, Nat.add_comm]
  simp only [List.length_singleton, List.length_nil, eq_comm]

end Mail

/-! ### Steps -/

namespace Action

/-- The relay end that an action is, with the place of the circuit at the other end. -/
def relayEnd? : Action R → Option (Relay × Nat)
  | sendBit _ peer => some (⟨.classical, .send⟩, peer)
  | receiveBit _ peer => some (⟨.classical, .receive⟩, peer)
  | applyIfReceived peer _ => some (⟨.classical, .receive⟩, peer)
  | loadReceived peer _ _ => some (⟨.classical, .receive⟩, peer)
  | sendQubit _ peer => some (⟨.quantum, .send⟩, peer)
  | receiveQubit _ peer => some (⟨.quantum, .receive⟩, peer)
  | _ => none

variable [Scalar R] [DrawSource σ]

theorem perform?_widths {own : Nat} {s s' : Shot σ R} {a : Action R}
    (h : a.perform? own s = some s') : s'.widths = s.widths := by
  cases a <;> simp only [perform?, Option.some.injEq, Option.map_eq_some_iff, Prod.exists] at h
  case measure =>
    subst h
    exact Shot.widths_write ..
  case receiveBit =>
    obtain ⟨b, bits, -, rfl⟩ := h
    exact Shot.widths_write ..
  case applyIf =>
    subst h
    apply Shot.widths_eq
    split <;> simp
  case applyIfReceived =>
    obtain ⟨b, bits, -, rfl⟩ := h
    apply Shot.widths_eq
    cases b <;> simp
  case loadReceived =>
    obtain ⟨b, bits, -, rfl⟩ := h
    apply Shot.widths_eq
    cases b <;> simp
  case receiveQubit =>
    obtain ⟨channel, channels, -, rfl⟩ := h
    apply Shot.widths_eq
    simp
  all_goals
    subst h
    apply Shot.widths_eq
    simp

/-- A circuit has to wait exactly at a receive with nothing under way for it. -/
theorem perform?_eq_none_iff {own : Nat} {s : Shot σ R} {a : Action R} :
    a.perform? own s = none ↔
      ∃ kind peer, a.relayEnd? = some (⟨kind, .receive⟩, peer) ∧ s.waiting kind peer own = 0 := by
  cases a <;> simp [perform?, relayEnd?, Mail.take?_eq_none_iff, and_assoc]

theorem perform?_waiting {own : Nat} {s s' : Shot σ R} {a : Action R}
    (h : a.perform? own s = some s') (kind : RelayKind) (sender receiver : Nat) :
    s'.waiting kind sender receiver +
        (if a.relayEnd? = some (⟨kind, .receive⟩, sender) ∧ receiver = own then 1 else 0) =
      s.waiting kind sender receiver +
        (if a.relayEnd? = some (⟨kind, .send⟩, receiver) ∧ sender = own then 1 else 0) := by
  cases a <;> simp only [perform?, Option.some.injEq, Option.map_eq_some_iff, Prod.exists] at h
  case applyIf control operation =>
    rw [← h]
    cases kind <;> split <;> simp [relayEnd?]
  case sendBit qubit peer =>
    rw [← h]
    cases kind
    · simp [relayEnd?, Mail.length_queue_post, eq_comm, and_comm]
    · simp [relayEnd?]
  case sendQubit qubit peer =>
    rw [← h]
    cases kind
    · simp [relayEnd?]
    · simp [relayEnd?, Mail.length_queue_post, eq_comm, and_comm]
  case receiveBit clbit peer =>
    obtain ⟨b, bits, htake, rfl⟩ := h
    cases kind
    · simp [relayEnd?, ← Mail.length_queue_of_take? htake, eq_comm]
    · simp [relayEnd?]
  case applyIfReceived peer operation =>
    obtain ⟨b, bits, htake, rfl⟩ := h
    cases kind
    · cases b <;> simp [relayEnd?, ← Mail.length_queue_of_take? htake, eq_comm]
    · cases b <;> simp [relayEnd?]
  case loadReceived peer control operation =>
    obtain ⟨b, bits, htake, rfl⟩ := h
    cases kind
    · cases b <;> simp [relayEnd?, ← Mail.length_queue_of_take? htake, eq_comm]
    · cases b <;> simp [relayEnd?]
  case receiveQubit qubit peer =>
    obtain ⟨channel, channels, htake, rfl⟩ := h
    cases kind
    · simp [relayEnd?]
    · simp [relayEnd?, ← Mail.length_queue_of_take? htake, eq_comm]
  all_goals
    rw [← h]
    cases kind <;> simp [relayEnd?]

end Action

end QuantumRelay
