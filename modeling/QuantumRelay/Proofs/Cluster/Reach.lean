import QuantumRelay.Cluster.Reach
import QuantumRelay.Proofs.KeyMap
import Mathlib.Logic.Relation

/-!
# The search finds what is reached

`Reaches peers start id` says that `id` is named from `start` on, directly or through circuits that
are here. The search of `Reach` finds exactly these circuits (`mem_search_iff`), whatever the
references look like, so its two parts are those that are here (`mem_group_iff`) and those that are
not (`mem_missing_iff`).
-/

namespace QuantumRelay.Reach

variable {peers : KeyMap (List String)}

def Refers (peers : KeyMap (List String)) (a b : String) : Prop :=
  ∃ named, peers.find? a = some named ∧ b ∈ named

/-- A circuit is named from another one on, directly or through circuits that are here. -/
abbrev Reaches (peers : KeyMap (List String)) : String → String → Prop :=
  Relation.ReflTransGen (Refers peers)

/-! ### The search -/

/-- Nothing is found that a property closed under references does not hold of. -/
theorem search_sound {P : String → Prop} (hstep : ∀ a b, P a → Refers peers a b → P b)
    (seen queue : List String) (hseen : ∀ id ∈ seen, P id) (hqueue : ∀ id ∈ queue, P id) :
    ∀ id ∈ search peers seen queue, P id := by
  fun_induction search peers seen queue with
  | case1 seen => exact hseen
  | case2 seen id queue _ ih =>
    exact ih hseen fun x hx => hqueue x (List.mem_cons_of_mem _ hx)
  | case3 seen id queue _ named hnamed ih =>
    have hid : P id := hqueue id List.mem_cons_self
    refine ih (fun x hx => ?_) (fun x hx => ?_)
    · rcases List.mem_cons.1 hx with rfl | hx
      · exact hid
      · exact hseen x hx
    · rcases List.mem_append.1 hx with hx | hx
      · exact hqueue x (List.mem_cons_of_mem _ hx)
      · exact hstep id x hid ⟨named, hnamed, hx⟩
  | case4 seen id queue _ _ ih =>
    refine ih (fun x hx => ?_) fun x hx => hqueue x (List.mem_cons_of_mem _ hx)
    rcases List.mem_cons.1 hx with rfl | hx
    · exact hqueue x List.mem_cons_self
    · exact hseen x hx

theorem subset_search (seen queue : List String) :
    ∀ id, id ∈ seen ∨ id ∈ queue → id ∈ search peers seen queue := by
  fun_induction search peers seen queue with
  | case1 seen => simp
  | case2 seen id queue hs ih =>
    rintro x (hx | hx)
    · exact ih x (.inl hx)
    · rcases List.mem_cons.1 hx with rfl | hx
      · exact ih x (.inl (by simpa using hs))
      · exact ih x (.inr hx)
  | case3 seen id queue _ named _ ih =>
    rintro x (hx | hx)
    · exact ih x (.inl (List.mem_cons_of_mem _ hx))
    · rcases List.mem_cons.1 hx with rfl | hx
      · exact ih x (.inl List.mem_cons_self)
      · exact ih x (.inr (List.mem_append_left _ hx))
  | case4 seen id queue _ _ ih =>
    rintro x (hx | hx)
    · exact ih x (.inl (List.mem_cons_of_mem _ hx))
    · rcases List.mem_cons.1 hx with rfl | hx
      · exact ih x (.inl List.mem_cons_self)
      · exact ih x (.inr hx)

/-- If all that the seen circuits name has been seen or is queued, then all that the found circuits
name is found. -/
theorem search_closed (seen queue : List String)
    (h : ∀ a ∈ seen, ∀ b, Refers peers a b → b ∈ seen ∨ b ∈ queue) :
    ∀ a ∈ search peers seen queue, ∀ b, Refers peers a b → b ∈ search peers seen queue := by
  fun_induction search peers seen queue with
  | case1 seen => exact fun a ha b hb => (h a ha b hb).resolve_right List.not_mem_nil
  | case2 seen id queue hs ih =>
    refine ih fun a ha b hb => ?_
    rcases h a ha b hb with hb | hb
    · exact .inl hb
    · rcases List.mem_cons.1 hb with rfl | hb
      · exact .inl (by simpa using hs)
      · exact .inr hb
  | case3 seen id queue _ named hnamed ih =>
    refine ih fun a ha b hb => ?_
    rcases List.mem_cons.1 ha with rfl | ha
    · obtain ⟨named', hnamed', hb⟩ := hb
      obtain rfl : named = named' := Option.some.inj (hnamed.symm.trans hnamed')
      exact .inr (List.mem_append_right _ hb)
    · rcases h a ha b hb with hb | hb
      · exact .inl (List.mem_cons_of_mem _ hb)
      · rcases List.mem_cons.1 hb with rfl | hb
        · exact .inl List.mem_cons_self
        · exact .inr (List.mem_append_left _ hb)
  | case4 seen id queue _ hnone ih =>
    refine ih fun a ha b hb => ?_
    rcases List.mem_cons.1 ha with rfl | ha
    · obtain ⟨named, hnamed, -⟩ := hb
      rw [hnone] at hnamed
      cases hnamed
    · rcases h a ha b hb with hb | hb
      · exact .inl (List.mem_cons_of_mem _ hb)
      · rcases List.mem_cons.1 hb with rfl | hb
        · exact .inl List.mem_cons_self
        · exact .inr hb

theorem mem_search_iff {start id : String} :
    id ∈ search peers [] [start] ↔ Reaches peers start id := by
  constructor
  · refine search_sound (P := Reaches peers start) (fun a b => .tail) [] [start] ?_ ?_ id
    · exact fun x hx => absurd hx List.not_mem_nil
    · rintro x hx
      rw [List.mem_singleton.1 hx]
  · intro h
    induction h with
    | refl => exact subset_search [] [start] start (.inr List.mem_cons_self)
    | tail _ hb ih =>
      exact search_closed [] [start] (fun a ha => absurd ha List.not_mem_nil) _ ih _ hb

/-! ### Its two parts -/

theorem mem_group_iff {start id : String} :
    id ∈ group peers start ↔ Reaches peers start id ∧ peers.contains id = true := by
  rw [group, List.mem_filter, KeyMap.mem_keys_iff, List.contains_iff_mem, mem_search_iff, and_comm]

theorem mem_missing_iff {start id : String} :
    id ∈ missing peers start ↔ Reaches peers start id ∧ peers.contains id = false := by
  rw [missing, Names.mem_sorted, List.mem_filter, mem_search_iff, Bool.not_eq_true']

theorem missing_isEmpty_iff {start : String} : (missing peers start).isEmpty = true ↔
    ∀ id, Reaches peers start id → peers.contains id = true := by
  rw [List.isEmpty_iff, List.eq_nil_iff_forall_not_mem]
  simp only [mem_missing_iff, not_and, Bool.not_eq_false]

theorem group_sorted (peers : KeyMap (List String)) (start : String) :
    (group peers start).Pairwise (· < ·) := peers.keys_sorted.filter _

end QuantumRelay.Reach
