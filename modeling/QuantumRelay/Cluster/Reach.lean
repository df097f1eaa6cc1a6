import QuantumRelay.Names

/-!
# What a circuit depends on

Every circuit that is here names the circuits that it relays with. `Reach.search` collects all that
is named from a start on, directly or through circuits that are here; `Reach.group` is the part of it
that is here and `Reach.missing` the part that is not.
-/

namespace QuantumRelay.Reach

/-- How many circuits are here and have not been seen. -/
def unseen (peers : KeyMap (List String)) (seen : List String) : Nat :=
  peers.keys.countP fun id => !seen.contains id

theorem mem_keys_of_find? {α : Type} {m : KeyMap α} {key : String} {v : α}
    (h : m.find? key = some v) : key ∈ m.keys := by
  have : ∀ l : List (String × α), KeyMap.findIn? key l = some v → key ∈ l.map (·.1) := by
    intro l
    induction l with
    | nil => intro h; cases h
    | cons e rest ih =>
      intro h
      by_cases he : key = e.1
      · simp [he]
      · rw [KeyMap.findIn?, if_neg he] at h
        exact List.mem_cons_of_mem _ (ih h)
  exact this m.entries h

theorem countP_lt_of_mem {α : Type} {p q : α → Bool} {l : List α} {x : α} (hx : x ∈ l)
    (hpq : ∀ y, p y = true → q y = true) (hp : p x = false) (hq : q x = true) :
    l.countP p < l.countP q := by
  induction l with
  | nil => cases hx
  | cons y rest ih =>
    have hle : rest.countP p ≤ rest.countP q := List.countP_mono_left fun z _ => hpq z
    rcases List.mem_cons.1 hx with rfl | hx
    · simp only [List.countP_cons, hp, hq, if_true, Bool.false_eq_true, if_false]
      omega
    · have := ih hx
      simp only [List.countP_cons]
      by_cases hy : p y = true
      · simp [hy, hpq y hy, this]
      · simp only [hy, Bool.false_eq_true, if_false]
        omega

theorem unseen_cons_le (peers : KeyMap (List String)) (seen : List String) (id : String) :
    unseen peers (id :: seen) ≤ unseen peers seen :=
  List.countP_mono_left fun key _ h => by simp_all

theorem unseen_cons_lt {peers : KeyMap (List String)} {seen : List String} {id : String}
    {named : List String} (hp : peers.find? id = some named) (hs : seen.contains id = false) :
    unseen peers (id :: seen) < unseen peers seen :=
  countP_lt_of_mem (mem_keys_of_find? hp) (fun key h => by simp_all) (by simp) (by simpa using hs)

/-- All that is named from a queue of circuits on, and what had been seen before. -/
def search (peers : KeyMap (List String)) (seen : List String) (queue : List String) :
    List String :=
  match queue with
  | [] => seen
  | id :: queue =>
    if _hs : seen.contains id then search peers seen queue
    else
      match _hp : peers.find? id with
      | some named => search peers (id :: seen) (queue ++ named)
      | none => search peers (id :: seen) queue
termination_by (unseen peers seen, queue.length)
decreasing_by
  · exact Prod.Lex.right _ (by simp)
  · exact Prod.Lex.left _ _ (unseen_cons_lt _hp (by simpa using _hs))
  · rcases Nat.lt_or_eq_of_le (unseen_cons_le peers seen id) with h | h
    · exact Prod.Lex.left _ _ h
    · rw [h]; exact Prod.Lex.right _ (by simp)

/-- What is reached from a circuit and is here, in order. -/
def group (peers : KeyMap (List String)) (start : String) : List String :=
  peers.keys.filter (search peers [] [start]).contains

/-- What is reached from a circuit and is not here, in order. -/
def missing (peers : KeyMap (List String)) (start : String) : List String :=
  Names.sorted ((search peers [] [start]).filter fun id => !peers.contains id)

end QuantumRelay.Reach
