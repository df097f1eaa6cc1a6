import QuantumRelay.Exchange.Message
import QuantumRelay.Proofs.Stopping
import Mathlib.Algebra.GroupWithZero.Nat
import Mathlib.Logic.Function.Basic
import Mathlib.Logic.Relation
import Mathlib.Algebra.Order.BigOperators.Group.List
import Mathlib.Algebra.Order.Group.Nat
import Mathlib.Data.List.Nodup

/-!
# Schedules of a group

A schedule carries the instructions of a group out one at a time. It may take the circuits in any
order, so long as each goes through its own instructions in turn and no receive comes before the value
that it takes has been sent (`Ready`). `Counters` say how far every circuit has come, and `Step` is one
instruction.

An instruction that is ready stays ready whatever the other circuits do. So no schedule gets past
counters at which another one is stuck (`le_of_stuck`): all of them stop at the same counters, and
each can be continued to these (`exists_stop`).
-/

namespace QuantumRelay

/-- How many of the first `n` instructions of a request are a relay end to a circuit. -/
def RunRequest.relayed (r : RunRequest) (e : Relay) (other : String) (n : Nat) : Nat :=
  (r.instructions.take n).countP fun i => i.relay = some e ∧ i.peer = some other

namespace RunRequest

theorem relayed_succ {r : RunRequest} {n : Nat} {i : Instruction} (h : r.instructions[n]? = some i)
    (e : Relay) (other : String) : r.relayed e other (n + 1) =
      r.relayed e other n + if i.relay = some e ∧ i.peer = some other then 1 else 0 := by
  rw [relayed, List.take_add_one, h, Option.toList_some, List.countP_append, List.countP_singleton]
  simp [relayed]

theorem relayed_mono (r : RunRequest) (e : Relay) (other : String) {m n : Nat} (h : m ≤ n) :
    r.relayed e other m ≤ r.relayed e other n :=
  (List.take_sublist_take_left h).countP_le

end RunRequest

namespace Schedule

abbrev Counters := String → Nat

/-- Whether the value that an instruction of a request takes, if it takes one, has been sent. -/
def Ready (group : List RunRequest) (pc : Counters) (r : RunRequest) (i : Instruction) : Prop :=
  ∀ kind p, i.relay = some ⟨kind, .receive⟩ → i.peer = some p →
    ∃ q ∈ group, q.id = p ∧
      r.relayed ⟨kind, .receive⟩ p (pc r.id) < q.relayed ⟨kind, .send⟩ r.id (pc q.id)

/-- One circuit carries its next instruction out. -/
inductive Step (group : List RunRequest) : Counters → Counters → Prop where
  | run {pc : Counters} {r : RunRequest} {i : Instruction} (hr : r ∈ group)
      (hi : r.instructions[pc r.id]? = some i) (hready : Ready group pc r i) :
      Step group pc (Function.update pc r.id (pc r.id + 1))

/-- Counters to which some schedule leads. -/
abbrev Reachable (group : List RunRequest) (pc : Counters) : Prop :=
  Relation.ReflTransGen (Step group) (fun _ => 0) pc

/-- No circuit can go on. -/
def Stuck (group : List RunRequest) (pc : Counters) : Prop := ∀ pc', ¬Step group pc pc'

/-- Every circuit has carried all its instructions out. -/
def Finished (group : List RunRequest) (pc : Counters) : Prop :=
  ∀ r ∈ group, pc r.id = r.instructions.length

variable {group : List RunRequest} {pc pc' stop : Counters}

theorem Step.le (h : Step group pc pc') (id : String) : pc id ≤ pc' id := by
  cases h with
  | @run r i _ _ _ =>
    by_cases hid : id = r.id
    · rw [hid, Function.update_self]
      omega
    · rw [Function.update_of_ne hid]

/-- No schedule gets past counters at which another one is stuck. -/
theorem le_of_stuck (hstuck : Stuck group stop) (h : Reachable group pc) (id : String) :
    pc id ≤ stop id := by
  induction h generalizing id with
  | refl => exact Nat.zero_le _
  | @tail pc _ _ hstep ih =>
    cases hstep with
    | @run r i hr hi hready =>
      by_cases hid : id = r.id
      · subst hid
        rw [Function.update_self]
        by_contra hlt
        have heq : pc r.id = stop r.id := by
          have := ih r.id
          omega
        -- The instruction that is carried out at `pc` could be carried out at `stop`, too.
        refine hstuck _ (.run hr (heq ▸ hi) fun kind p hrelay hpeer => ?_)
        obtain ⟨q, hq, hid, hlt⟩ := hready kind p hrelay hpeer
        exact ⟨q, hq, hid, heq ▸ hlt.trans_le (q.relayed_mono _ _ (ih q.id))⟩
      · rw [Function.update_of_ne hid]
        exact ih id

theorem eq_of_stuck (hpc : Reachable group pc) (hstuck : Stuck group pc)
    (hpc' : Reachable group pc') (hstuck' : Stuck group pc') : pc = pc' :=
  funext fun id => Nat.le_antisymm (le_of_stuck hstuck' hpc id) (le_of_stuck hstuck hpc' id)

def left (group : List RunRequest) (pc : Counters) : Nat :=
  (group.map fun r => r.instructions.length - pc r.id).sum

theorem Step.left_lt (h : Step group pc pc') : left group pc' < left group pc := by
  have hle := h.le
  cases h with
  | @run r i hr hi hready =>
    have hlt : pc r.id < r.instructions.length := (List.getElem?_eq_some_iff.1 hi).1
    refine List.sum_lt_sum _ _ (fun q _ => ?_) ⟨r, hr, ?_⟩
    · exact Nat.sub_le_sub_left (hle q.id) _
    · rw [Function.update_self]
      omega

/-- Every schedule can be continued until no circuit can go on. -/
theorem exists_stuck (group : List RunRequest) (pc : Counters) :
    ∃ pc', Relation.ReflTransGen (Step group) pc pc' ∧ Stuck group pc' :=
  exists_stopped (Subrelation.wf Step.left_lt (InvImage.wf (left group) Nat.lt_wfRel.wf)) pc

theorem Finished.stuck (h : Finished group pc) : Stuck group pc := by
  rintro _ ⟨hr, hi, -⟩
  have := (List.getElem?_eq_some_iff.1 hi).1
  rw [h _ hr] at this
  omega

/-- All schedules of a group stop at the same counters, to which each can be continued, and these are
the end of all circuits if some schedule reaches it. -/
theorem exists_stop (group : List RunRequest) :
    ∃ stop, Reachable group stop ∧ Stuck group stop ∧
      (∀ pc, Reachable group pc → Relation.ReflTransGen (Step group) pc stop) ∧
      (Finished group stop ↔ ∃ pc, Reachable group pc ∧ Finished group pc) := by
  obtain ⟨stop, hstop, hstuck⟩ := exists_stuck group fun _ => 0
  refine ⟨stop, hstop, hstuck, fun pc hpc => ?_, fun h => ⟨stop, hstop, h⟩, ?_⟩
  · obtain ⟨pc', hrun, hstuck'⟩ := exists_stuck group pc
    rwa [eq_of_stuck hstop hstuck (hpc.trans hrun) hstuck']
  · rintro ⟨pc, hpc, hfinished⟩
    rwa [eq_of_stuck hstop hstuck hpc hfinished.stuck]

theorem Step.of_perm {group' : List RunRequest} (hperm : group'.Perm group)
    (h : Step group' pc pc') : Step group pc pc' := by
  obtain ⟨hr, hi, hready⟩ := h
  refine .run (hperm.mem_iff.1 hr) hi fun kind p hrelay hpeer => ?_
  obtain ⟨q, hq, hlt⟩ := hready kind p hrelay hpeer
  exact ⟨q, hperm.mem_iff.1 hq, hlt⟩

theorem le_length (hids : (group.map (·.id)).Nodup) (h : Reachable group pc) {r : RunRequest}
    (hr : r ∈ group) : pc r.id ≤ r.instructions.length := by
  induction h with
  | refl => exact Nat.zero_le _
  | tail _ hstep ih =>
    cases hstep with
    | @run q i hq hi _ =>
      by_cases hid : r.id = q.id
      · obtain rfl := List.inj_on_of_nodup_map hids hr hq hid
        rw [Function.update_self]
        exact (List.getElem?_eq_some_iff.1 hi).1
      · rw [Function.update_of_ne hid]
        exact ih

theorem left_eq_zero_iff (hids : (group.map (·.id)).Nodup) (h : Reachable group pc) :
    left group pc = 0 ↔ Finished group pc := by
  rw [left, List.sum_eq_zero_iff_forall_eq_nat, List.forall_mem_map]
  refine forall₂_congr fun r hr => ?_
  have := le_length hids h hr
  omega

end Schedule

end QuantumRelay
