import QuantumRelay.Proofs.Engine.Placement
import QuantumRelay.Proofs.Engine.Outcome
import QuantumRelay.Proofs.Engine.Schedule
import Mathlib.Data.List.Nodup

/-!
# Turns in group order are a schedule

A shot carries out a schedule of its group: at every point some counters say which tasks are left
(`workAt`) and which letters are under way (`MailAt`). `perform_step` is one task, `advance_run` a turn
of one circuit and `round_run` a turn of every circuit. A round that leaves as many tasks as there were
finds every circuit at a task that cannot be carried out (`round_eq_self`), so the rounds end
where no schedule can go on (`settle_run`).

Since all schedules stop at the same counters, a shot stops there too, whatever is drawn and in
whichever order the requests stand; it deadlocks only if every schedule does (`runShot_stops`).
-/

namespace QuantumRelay.Engine

open Schedule

variable {σ R : Type}

def workAt (members : List (Member R)) (pc : Counters) : List (List (Task R)) :=
  members.map fun m => m.tasks.drop (pc m.id)

/-- The letters under way are those that have been sent and not been taken at counters. -/
def MailAt (group : List RunRequest) (pc : Counters) (s : Shot σ R) : Prop :=
  ∀ kind i j p q, group[i]? = some p → group[j]? = some q →
    s.waiting kind i j + q.relayed ⟨kind, .receive⟩ p.id (pc q.id) =
      p.relayed ⟨kind, .send⟩ q.id (pc p.id)

/-- No circuit can carry out the first task that it has left. -/
def Blocked [Scalar R] [DrawSource σ] (work : List (List (Task R))) (s : Shot σ R) : Prop :=
  ∀ (place : Nat) (t : Task R) (rest : List (Task R)), work[place]? = some (t :: rest) →
    t.action.perform? place s = none

theorem mailAt_zero (group : List RunRequest) (l : Layout R) (source : σ) [Scalar R] :
    MailAt group (fun _ => 0) (Shot.start l source) := by
  intro kind i j p q _ _
  cases kind <;> rfl

theorem workAt_congr {members : List (Member R)} {pc pc' : Counters}
    (h : ∀ id ∈ members.map (·.id), pc id = pc' id) : workAt members pc = workAt members pc' :=
  List.map_congr_left fun m hm => by rw [h m.id (List.mem_map_of_mem hm)]

theorem pending_workAt {ids : List String} {rs : List RunRequest} {members : List (Member R)}
    [Scalar R] (h : List.Forall₂ (Layout.Placed ids) rs members) (pc : Counters) :
    pending (workAt members pc) = left rs pc := by
  induction h with
  | nil => rfl
  | @cons r m _ _ hm _ ih =>
    rw [pending, workAt, List.map_cons, List.flatten_cons, List.length_append, left, List.map_cons,
      List.sum_cons, ← left, ← ih, List.length_drop, hm.id_eq, ← hm.instructions_eq,
      List.length_map]
    rfl

/-! ### Peers as places -/

theorem idxOf?_ids {group : List RunRequest} (hids : (group.map (·.id)).Nodup) {place : Nat}
    {q : RunRequest} (hq : group[place]? = some q) (id : String) :
    (group.map (·.id)).idxOf? id = some place ↔ id = q.id := by
  obtain ⟨hlt, hget⟩ := List.getElem?_eq_some_iff.1 hq
  rw [List.idxOf?_eq_some_iff]
  constructor
  · rintro ⟨_, heq, -⟩
    rw [← heq, List.getElem_map, hget]
  · rintro rfl
    have hlt' : place < (group.map (·.id)).length := by simpa using hlt
    have hself : (group.map (·.id))[place] = q.id := by rw [List.getElem_map, hget]
    refine ⟨hlt', hself, fun j hj heq => ?_⟩
    have := (List.getElem_inj hids).1 (heq.trans hself.symm)
    omega

section group

variable [Scalar R] {group : List RunRequest} (hids : (group.map (·.id)).Nodup)
  (hrun : ∀ r ∈ group, Layout.Runnable (group.map (·.id)) r)

include hids hrun

theorem relayEnd?_eq_some_iff {r q : RunRequest} {m : Member R} (hr : r ∈ group)
    (hm : Layout.Placed (group.map (·.id)) r m) {t : Task R} (ht : t ∈ m.tasks) {place : Nat}
    (hq : group[place]? = some q) (e : Relay) :
    t.action.relayEnd? = some (e, place) ↔
      t.instruction.relay = some e ∧ t.instruction.peer = some q.id := by
  have hi : t.instruction ∈ r.instructions := hm.instructions_eq ▸ List.mem_map_of_mem ht
  obtain ⟨⟨s, hs⟩, -⟩ := hrun r hr _ hi
  obtain ⟨offset, ha⟩ := hm.action_eq t ht
  rw [Action.relayEnd?_ofInstruction (Instruction.validate_eq_ok.1 hs).1 ha]
  cases hrelay : t.instruction.relay with
  | none => simp
  | some e' =>
    cases hpeer : t.instruction.peer with
    | none => simp
    | some p => simp [idxOf?_ids hids hq, and_comm]

omit hids in
theorem place_of_relayEnd? {r : RunRequest} {m : Member R} (hr : r ∈ group)
    (hm : Layout.Placed (group.map (·.id)) r m) {t : Task R} (ht : t ∈ m.tasks) {e : Relay}
    {place : Nat} (h : t.action.relayEnd? = some (e, place)) : ∃ q, group[place]? = some q := by
  have hi : t.instruction ∈ r.instructions := hm.instructions_eq ▸ List.mem_map_of_mem ht
  obtain ⟨⟨s, hs⟩, -⟩ := hrun r hr _ hi
  obtain ⟨offset, ha⟩ := hm.action_eq t ht
  rw [Action.relayEnd?_ofInstruction (Instruction.validate_eq_ok.1 hs).1 ha] at h
  obtain ⟨e', -, h⟩ := Option.bind_eq_some_iff.1 h
  obtain ⟨k, hk, heq⟩ := Option.map_eq_some_iff.1 h
  obtain ⟨p, -, hp⟩ := Option.bind_eq_some_iff.1 hk
  obtain ⟨hlt, -⟩ := List.idxOf?_eq_some_iff.1 hp
  obtain ⟨rfl, rfl⟩ := Prod.mk.inj heq
  exact ⟨_, List.getElem?_eq_getElem (by simpa using hlt)⟩

variable {pc : Counters}

omit hrun in
theorem relayed_update {own place : Nat} {r q : RunRequest} {i : Instruction}
    (hr : group[own]? = some r) (hi : r.instructions[pc r.id]? = some i)
    (hq : group[place]? = some q) (e : Relay) (other : String) :
    q.relayed e other (Function.update pc r.id (pc r.id + 1) q.id) =
      q.relayed e other (pc q.id) +
        if (i.relay = some e ∧ i.peer = some other) ∧ place = own then 1 else 0 := by
  by_cases hid : q.id = r.id
  · have hplace : place = own := by
      have := (idxOf?_ids hids hq r.id).2 hid.symm
      rw [(idxOf?_ids hids hr r.id).2 rfl] at this
      exact (Option.some.inj this).symm
    subst hplace
    obtain rfl : q = r := Option.some.inj (hq.symm.trans hr)
    rw [Function.update_self, RunRequest.relayed_succ hi]
    simp
  · have hplace : place ≠ own := by
      rintro rfl
      exact hid (congrArg _ (Option.some.inj (hq.symm.trans hr)))
    rw [Function.update_of_ne hid]
    simp [hplace]

variable [DrawSource σ] {s s' : Shot σ R}

/-- A task that is carried out was ready, and it moves the letters that the counters say. -/
theorem perform_step {own : Nat} {r : RunRequest} {m : Member R} {t : Task R}
    (hr : group[own]? = some r) (hm : Layout.Placed (group.map (·.id)) r m)
    (ht : m.tasks[pc r.id]? = some t) (hmail : MailAt group pc s)
    (hs : t.action.perform? own s = some s') :
    Step group pc (Function.update pc r.id (pc r.id + 1)) ∧
      MailAt group (Function.update pc r.id (pc r.id + 1)) s' := by
  have hmem : r ∈ group := List.mem_of_getElem? hr
  have hi : r.instructions[pc r.id]? = some t.instruction := by
    rw [← hm.instructions_eq, List.getElem?_map, ht, Option.map_some]
  have hend {place : Nat} {q : RunRequest} (hq : group[place]? = some q) :=
    relayEnd?_eq_some_iff hids hrun hmem hm (List.mem_of_getElem? ht) hq
  refine ⟨.run hmem hi fun kind p hrelay hpeer => ?_, fun kind i j p q hp hq => ?_⟩
  · obtain ⟨-, hin⟩ := hrun r hmem _ (List.mem_of_getElem? hi)
    obtain ⟨q, hq, hqid⟩ := List.mem_map.1 (hin p hpeer)
    obtain ⟨place, hplace⟩ := List.mem_iff_getElem?.1 hq
    have hwait : s.waiting kind place own ≠ 0 := fun hzero => by
      have hnone := Action.perform?_eq_none_iff.2
        ⟨kind, place, (hend hplace _).2 ⟨hrelay, by rw [hpeer, hqid]⟩, hzero⟩
      rw [hs] at hnone
      cases hnone
    have := hmail kind place own q r hplace hr
    exact ⟨q, hq, hqid, by rw [← hqid]; omega⟩
  · have hletters := Action.perform?_waiting hs kind i j
    have hbefore := hmail kind i j p q hp hq
    simp only [hend hp, hend hq] at hletters
    rw [relayed_update hids hr hi hp, relayed_update hids hr hi hq]
    omega

theorem not_ready_of_none {own : Nat} {r : RunRequest} {m : Member R} {t : Task R}
    (hr : group[own]? = some r) (hm : Layout.Placed (group.map (·.id)) r m)
    (ht : t ∈ m.tasks) (hmail : MailAt group pc s) (hs : t.action.perform? own s = none) :
    ¬Ready group pc r t.instruction := by
  intro hready
  have hmem : r ∈ group := List.mem_of_getElem? hr
  obtain ⟨kind, place, hend, hzero⟩ := Action.perform?_eq_none_iff.1 hs
  obtain ⟨q, hq⟩ := place_of_relayEnd? hrun hmem hm ht hend
  obtain ⟨hrelay, hpeer⟩ := (relayEnd?_eq_some_iff hids hrun hmem hm ht hq _).1 hend
  obtain ⟨q', hq', hid, hlt⟩ := hready kind q.id hrelay hpeer
  obtain rfl : q' = q := List.inj_on_of_nodup_map hids hq' (List.mem_of_getElem? hq) hid
  have := hmail kind place own q' r hq hr
  omega

/-! ### Turns and rounds -/

theorem advance_run {own : Nat} {r : RunRequest} {m : Member R} (hr : group[own]? = some r)
    (hm : Layout.Placed (group.map (·.id)) r m) (hmail : MailAt group pc s) :
    ∃ pc', Relation.ReflTransGen (Step group) pc pc' ∧ (∀ id, id ≠ r.id → pc' id = pc id) ∧
      (advance own (m.tasks.drop (pc r.id)) s).1 = m.tasks.drop (pc' r.id) ∧
      MailAt group pc' (advance own (m.tasks.drop (pc r.id)) s).2 := by
  induction hleft : m.tasks.drop (pc r.id) generalizing pc s with
  | nil => exact ⟨pc, .refl, fun _ _ => rfl, hleft.symm, hmail⟩
  | cons t rest ih =>
    have ht : m.tasks[pc r.id]? = some t := by
      rw [← List.head?_drop, hleft, List.head?_cons]
    rw [advance]
    split
    · next s' hs =>
      obtain ⟨hstep, hmail'⟩ := perform_step hids hrun hr hm ht hmail hs
      have hrest : m.tasks.drop (Function.update pc r.id (pc r.id + 1) r.id) = rest := by
        rw [Function.update_self, ← List.drop_drop, hleft, List.drop_one, List.tail_cons]
      obtain ⟨pc', hrun', hother, hdone, hmail''⟩ := ih hmail' hrest
      refine ⟨pc', .head hstep hrun', fun id hid => ?_, hdone, hmail''⟩
      rw [hother id hid, Function.update_of_ne hid]
    · exact ⟨pc, .refl, fun _ _ => rfl, hleft.symm, hmail⟩

theorem round_run {own : Nat} {rs : List RunRequest} {ms : List (Member R)}
    (hplaced : List.Forall₂ (Layout.Placed (group.map (·.id))) rs ms) (hrs : group.drop own = rs)
    (hmail : MailAt group pc s) :
    ∃ pc', Relation.ReflTransGen (Step group) pc pc' ∧
      (∀ id, id ∉ rs.map (·.id) → pc' id = pc id) ∧
      (round own (workAt ms pc) s).1 = workAt ms pc' ∧
      MailAt group pc' (round own (workAt ms pc) s).2 := by
  induction hplaced generalizing own pc s with
  | nil => exact ⟨pc, .refl, fun _ _ => rfl, rfl, hmail⟩
  | @cons r m rs ms hm hplaced ih =>
    have hr : group[own]? = some r := by
      rw [← List.head?_drop, hrs, List.head?_cons]
    have hrest : group.drop (own + 1) = rs := by
      rw [← List.drop_drop, hrs, List.drop_one, List.tail_cons]
    have hnot : r.id ∉ rs.map (·.id) := by
      have hnodup := hids.sublist ((List.drop_sublist own group).map (·.id))
      rw [hrs, List.map_cons, List.nodup_cons] at hnodup
      exact hnodup.1
    obtain ⟨pc₁, hrun₁, hother₁, hdone₁, hmail₁⟩ := advance_run hids hrun hr hm hmail
    obtain ⟨pc₂, hrun₂, hother₂, hdone₂, hmail₂⟩ := ih hrest hmail₁
    -- The turn of the first circuit has not touched the work of the others.
    have hkept : workAt ms pc = workAt ms pc₁ := by
      refine workAt_congr fun id hid => (hother₁ id fun heq => hnot ?_).symm
      rwa [← heq, ← Layout.ids_of_placed hplaced]
    rw [← hkept] at hdone₂ hmail₂
    refine ⟨pc₂, hrun₁.trans hrun₂, fun id hid => ?_, ?_, ?_⟩
    · rw [List.map_cons, List.mem_cons, not_or] at hid
      rw [hother₂ id hid.2, hother₁ id hid.1]
    · change (advance own (m.tasks.drop (pc m.id)) s).1 ::
        (round (own + 1) (workAt ms pc) (advance own (m.tasks.drop (pc m.id)) s).2).1 =
          m.tasks.drop (pc₂ m.id) :: workAt ms pc₂
      rw [hm.id_eq, hdone₁, hdone₂, hother₂ r.id hnot]
    · change MailAt group pc₂
        (round (own + 1) (workAt ms pc) (advance own (m.tasks.drop (pc m.id)) s).2).2
      rw [hm.id_eq]
      exact hmail₂

end group

/-! ### The last round -/

section blocked

variable [Scalar R] [DrawSource σ]

theorem advance_eq_self (own : Nat) (tasks : List (Task R)) (s : Shot σ R) :
    (advance own tasks s).1.length < tasks.length ∨ advance own tasks s = (tasks, s) ∧
      ∀ t rest, tasks = t :: rest → t.action.perform? own s = none := by
  induction tasks generalizing s with
  | nil => exact .inr ⟨rfl, by simp⟩
  | cons t rest ih =>
    rw [advance]
    split
    · next s' hs =>
      left
      rcases ih s' with hlt | ⟨heq, -⟩
      · rw [List.length_cons]
        omega
      · rw [heq]
        exact Nat.lt_succ_self _
    · next hs =>
      right
      refine ⟨rfl, fun t' rest' heq => ?_⟩
      obtain ⟨rfl, rfl⟩ := List.cons.inj heq
      exact hs

/-- A round that leaves as many tasks as there were changes nothing and finds every circuit blocked. -/
theorem round_eq_self (own : Nat) (work : List (List (Task R))) (s : Shot σ R) :
    pending (round own work s).1 < pending work ∨ round own work s = (work, s) ∧
      ∀ (place : Nat) (t : Task R) (rest : List (Task R)), work[place]? = some (t :: rest) →
        t.action.perform? (own + place) s = none := by
  induction work generalizing own s with
  | nil => exact .inr ⟨rfl, by simp⟩
  | cons tasks rest ih =>
    have hround : round own (tasks :: rest) s = ((advance own tasks s).1 ::
      (round (own + 1) rest (advance own tasks s).2).1,
        (round (own + 1) rest (advance own tasks s).2).2) := rfl
    have hpending (tasks : List (Task R)) (rest : List (List (Task R))) :
        pending (tasks :: rest) = tasks.length + pending rest := by
      rw [pending, List.flatten_cons, List.length_append, pending]
    rw [hround, hpending, hpending]
    rcases advance_eq_self own tasks s with hlt | ⟨heq, hblocked⟩
    · left
      rcases ih (own + 1) (advance own tasks s).2 with hlt' | ⟨heq', -⟩
      · omega
      · rw [heq']
        exact Nat.add_lt_add_right hlt _
    · rw [heq]
      dsimp only
      rcases ih (own + 1) s with hlt' | ⟨heq', hblocked'⟩
      · left
        omega
      · right
        refine ⟨by rw [heq'], fun place t more hplace => ?_⟩
        cases place with
        | zero => exact hblocked t more (Option.some.inj hplace)
        | succ place =>
          rw [show own + (place + 1) = own + 1 + place by omega]
          exact hblocked' place t more hplace

theorem settle_blocked (work : List (List (Task R))) (s : Shot σ R) :
    Blocked (settle work s).1 (settle work s).2 := by
  induction hn : pending work using Nat.strongRecOn generalizing work s with
  | ind n ih =>
    rw [settle_eq]
    split
    · next hlt => exact ih _ (hn ▸ hlt) _ _ rfl
    · next hge =>
      rcases round_eq_self 0 work s with hlt | ⟨heq, hblocked⟩
      · exact absurd hlt hge
      · rw [heq]
        intro place t rest hplace
        rw [← Nat.zero_add place]
        exact hblocked place t rest hplace

end blocked

/-! ### Where a shot stops -/

section stop

variable [Scalar R] [DrawSource σ] {maxQubits : Nat} {group : List RunRequest} {l : Layout R}

/-- A shot ends where no schedule of its group can go on. -/
theorem settle_run (h : Layout.ofGroup maxQubits group = .ok l) (source : σ) :
    ∃ pc, Reachable group pc ∧ Stuck group pc ∧
      (settle (l.members.map (·.tasks)) (.start l source)).1 = workAt l.members pc := by
  obtain ⟨hids, hrun, -, members, hplace, rfl⟩ := Layout.ofGroup_eq_ok.1 h
  have hplaced := Layout.forall₂_of_place hplace
  generalize hl : (⟨members, Layout.qubitsOf group, Layout.channelsOf group⟩ : Layout R) = l
  obtain ⟨pc, hpc, hwork, hmail⟩ := settle_keeps
    (P := fun work s => ∃ pc, Reachable group pc ∧ work = workAt members pc ∧ MailAt group pc s)
    (fun work s hkept => by
      obtain ⟨pc, hpc, rfl, hmail⟩ := hkept
      obtain ⟨pc', hrun', -, hdone, hmail'⟩ := round_run hids hrun hplaced List.drop_zero hmail
      exact ⟨pc', hpc.trans hrun', hdone, hmail'⟩)
    (members.map (·.tasks)) (Shot.start l source)
    ⟨fun _ => 0, .refl, by simp [workAt], mailAt_zero group l source⟩
  have hblocked := settle_blocked (members.map (·.tasks)) (Shot.start l source)
  subst hl
  refine ⟨pc, hpc, ?_, hwork⟩
  rintro _ (@⟨r, i, hr, hi, hready⟩)
  obtain ⟨place, hplace⟩ := List.mem_iff_getElem?.1 hr
  obtain ⟨m, hm, hrm⟩ := Layout.exists_placed hplaced hplace
  rw [← hrm.instructions_eq, List.getElem?_map] at hi
  obtain ⟨t, ht, rfl⟩ := Option.map_eq_some_iff.1 hi
  have hfirst : (workAt members pc)[place]? = some (t :: m.tasks.drop (pc r.id + 1)) := by
    obtain ⟨hlt, rfl⟩ := List.getElem?_eq_some_iff.1 ht
    rw [workAt, List.getElem?_map, hm, Option.map_some, hrm.id_eq, List.drop_eq_getElem_cons hlt]
  rw [hwork] at hblocked
  exact not_ready_of_none hids hrun hplace hrm (List.mem_of_getElem? ht) hmail
    (hblocked place t _ hfirst) hready

theorem runShot_eq (l : Layout R) (source : σ) :
    runShot l source =
      if pending (settle (l.members.map (·.tasks)) (.start l source)).1 = 0 then
        .ok (settle (l.members.map (·.tasks)) (.start l source)).2
      else
        .error (.deadlock (waits l.members
          (settle (l.members.map (·.tasks)) (.start l source)).1)) := rfl

end stop

/-- A shot of a group stops at the counters at which every schedule of it stops, whatever the order of
the requests and whatever is drawn. It succeeds if some schedule reaches the end of all circuits, and
otherwise reports the waits at these counters. -/
theorem runShot_stops [Scalar R] {maxQubits : Nat} {group : List RunRequest} {l : Layout R}
    (h : Layout.ofGroup maxQubits group = .ok l) :
    ∃ stop : Counters, Reachable group stop ∧ Stuck group stop ∧
      (∀ pc, Reachable group pc → Stuck group pc → pc = stop) ∧
      (∀ pc, Reachable group pc → Relation.ReflTransGen (Step group) pc stop) ∧
      (∀ r ∈ group, stop r.id ≤ r.instructions.length) ∧
      ∀ group', group'.Perm group → ∃ l' : Layout R, Layout.ofGroup maxQubits group' = .ok l' ∧
        l'.members.map (fun m => (m.id, m.tasks.map (·.instruction))) =
          group'.map (fun r => (r.id, r.instructions)) ∧
        ∀ (σ : Type) [DrawSource σ] (source : σ),
          (settle (l'.members.map (·.tasks)) (.start l' source)).1 =
            l'.members.map (fun m => m.tasks.drop (stop m.id)) ∧
          ((∃ s, runShot l' source = .ok s) ↔ ∃ pc, Reachable group pc ∧ Finished group pc) ∧
          ((¬∃ pc, Reachable group pc ∧ Finished group pc) → runShot l' source =
            .error (.deadlock (waits l'.members
              (l'.members.map fun m => m.tasks.drop (stop m.id))))) := by
  obtain ⟨hids, -, -, -⟩ := Layout.ofGroup_eq_ok.1 h
  obtain ⟨stop, hstop, hstuck, hextend, hfinished⟩ := exists_stop group
  refine ⟨stop, hstop, hstuck, fun pc hpc hpc' => eq_of_stuck hpc hpc' hstop hstuck, hextend,
    fun r hr => le_length hids hstop hr, fun group' hperm => ?_⟩
  obtain ⟨l', hl'⟩ := Layout.ofGroup_perm hperm h
  obtain ⟨hids', -, -, members, hplace, rfl⟩ := Layout.ofGroup_eq_ok.1 hl'
  have hplaced := Layout.forall₂_of_place hplace
  refine ⟨_, hl', Layout.contents_of_placed hplaced, fun σ _ source => ?_⟩
  -- The schedule that the shot carries out is one of the group as well, and it is stuck there too.
  obtain ⟨pc, hpc, hpc', hwork⟩ := settle_run hl' source
  obtain rfl : pc = stop := by
    have hreach : Reachable group pc :=
      Relation.ReflTransGen.mono (fun _ _ => Step.of_perm hperm) _ _ hpc
    exact eq_of_stuck hreach (fun next hstep => hpc' next (hstep.of_perm hperm.symm)) hstop hstuck
  have hend : pending (workAt members pc) = 0 ↔ ∃ pc, Reachable group pc ∧ Finished group pc := by
    rw [pending_workAt hplaced, left_eq_zero_iff hids' hpc, ← hfinished]
    exact forall_congr' fun r => imp_congr_left hperm.mem_iff
  refine ⟨hwork, ?_, fun hnot => ?_⟩
  · rw [runShot_eq, hwork, ← hend]
    by_cases hzero : pending (workAt members pc) = 0
    · simp [hzero]
    · simp [hzero]
  · rw [runShot_eq, hwork, if_neg (hend.not.2 hnot)]
    rfl

def sending : Instruction := { name := "measure_and_send", qubits := [0], circuits := ["b"] }

def receiving : Instruction := { name := "recv", qubits := [], clbits := [0], circuits := ["a"] }

def sender : RunRequest :=
  { id := "a", config := {}, execType := .dynamic, numQubits := 1, numClbits := 0
    instructions := [sending] }

def receiver : RunRequest :=
  { id := "b", config := {}, execType := .dynamic, numQubits := 1, numClbits := 1
    instructions := [receiving] }

/-- With the receiver in front the first turn waits, and the second round finishes. -/
theorem runShot_stops_receiver_first :
    ∃ l : Layout Float, Layout.ofGroup 2 [sender, receiver] = .ok l ∧
      ∃ l' : Layout Float, Layout.ofGroup 2 [receiver, sender] = .ok l' ∧
        ∀ (σ : Type) [DrawSource σ] (source : σ), ∃ s, runShot l' source = .ok s := by
  let l : Layout Float :=
    { members := [⟨"a", 0, [⟨sending, .sendBit 0 1⟩]⟩, ⟨"b", 1, [⟨receiving, .receiveBit 0 0⟩]⟩]
      blocks := 2
      channels := 0 }
  have h : Layout.ofGroup 2 [sender, receiver] = .ok l := rfl
  obtain ⟨stop, -, -, -, -, -, hall⟩ := runShot_stops h
  obtain ⟨l', hl', -, hshot⟩ := hall [receiver, sender] (.swap ..)
  refine ⟨l, h, l', hl', fun σ _ source => (hshot σ source).2.1.2 ?_⟩
  have hsend : Step [sender, receiver] (fun _ => 0) (Function.update (fun _ => 0) "a" 1) :=
    .run (r := sender) (by simp) rfl fun kind p hrelay => by cases kind <;> cases hrelay
  have hreceive : Step [sender, receiver] (Function.update (fun _ => 0) "a" 1)
      (Function.update (Function.update (fun _ => 0) "a" 1) "b" 1) :=
    .run (r := receiver) (by simp) rfl fun kind p hrelay hpeer => by
      cases hrelay
      cases hpeer
      exact ⟨sender, by simp, rfl, by decide⟩
  refine ⟨_, .tail (.tail .refl hsend) hreceive, fun r hr => ?_⟩
  rcases List.mem_pair.1 hr with rfl | rfl <;> rfl

end QuantumRelay.Engine
