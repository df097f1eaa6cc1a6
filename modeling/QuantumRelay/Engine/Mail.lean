/-!
# Mail between circuits

`Mail α` is what has been sent and not been received yet. Letters between one pair of circuits are
received in the order in which they were sent; those of other pairs do not matter. `queue` is what a
pair has under way, and `queue_post_self` and `queue_take?` say what sending and receiving do to it.
-/

namespace QuantumRelay

structure Letter (α : Type) where
  sender : Nat
  receiver : Nat
  content : α

/-- Letters that have been sent and not been received yet, in the order of sending. -/
structure Mail (α : Type) where
  letters : List (Letter α) := []

namespace Mail

variable {α : Type}

def post (m : Mail α) (sender receiver : Nat) (content : α) : Mail α :=
  ⟨m.letters ++ [⟨sender, receiver, content⟩]⟩

/-- The first letter between a pair, and the letters without it. -/
def takeFrom (sender receiver : Nat) : List (Letter α) → Option (α × List (Letter α))
  | [] => none
  | l :: rest =>
    if l.sender = sender && l.receiver = receiver then some (l.content, rest)
    else (takeFrom sender receiver rest).map fun (content, rest) => (content, l :: rest)

def take? (m : Mail α) (sender receiver : Nat) : Option (α × Mail α) :=
  (takeFrom sender receiver m.letters).map fun (content, letters) => (content, ⟨letters⟩)

def queue (m : Mail α) (sender receiver : Nat) : List α :=
  (m.letters.filter fun l => l.sender = sender && l.receiver = receiver).map (·.content)

theorem queue_post_self (m : Mail α) (sender receiver : Nat) (content : α) :
    (m.post sender receiver content).queue sender receiver =
      m.queue sender receiver ++ [content] := by
  simp [queue, post]

theorem queue_post_of_ne (m : Mail α) {sender receiver s r : Nat} (content : α)
    (h : ¬(s = sender ∧ r = receiver)) :
    (m.post sender receiver content).queue s r = m.queue s r := by
  have : ¬(sender = s ∧ receiver = r) := fun ⟨hs, hr⟩ => h ⟨hs.symm, hr.symm⟩
  simp [queue, post, this]

theorem queue_take? (m : Mail α) (sender receiver : Nat) :
    (m.take? sender receiver).map (fun p => p.1 :: p.2.queue sender receiver) =
      if m.queue sender receiver = [] then none else some (m.queue sender receiver) := by
  obtain ⟨letters⟩ := m
  induction letters with
  | nil => simp [take?, takeFrom, queue]
  | cons l rest ih =>
    by_cases h : l.sender = sender ∧ l.receiver = receiver
    · simp [take?, takeFrom, queue, h]
    · simp only [take?, takeFrom, queue, h, Bool.and_eq_true, decide_eq_true_eq, if_false,
        Option.map_map] at ih ⊢
      simpa [List.filter_cons, h, Function.comp_def] using ih

end Mail

end QuantumRelay
