import QuantumRelay.Engine.Layout
import QuantumRelay.Proofs.Catalog
import QuantumRelay.Proofs.Circuit.Validation
import QuantumRelay.Proofs.Engine.Shot
import QuantumRelay.Proofs.KeyMap
import Mathlib.Data.List.Forall2
import Mathlib.Data.List.Perm.Basic

/-!
# What a layout consists of

A group that `Layout.ofGroup` takes has distinct ids and valid instructions, all of whose peers are in
the group (`Runnable`), and its layout has one member for every request, with one task for every
instruction (`Placed`). A task's action relays as its instruction does (`relayEnd?_ofInstruction`).

Whether a group is taken does not depend on its order (`ofGroup_perm`): the place of a circuit decides
which qubits its operations act on, never whether there is an operation.
-/

namespace QuantumRelay

variable {R : Type} [Scalar R]

/-! ### Operations and the number of their qubits -/

namespace Operation

theorem plain?_three {name : String} {params : List R} {a b c : Nat} :
    (plain? name [a, b, c] params).isSome = ["ccx", "cswap", "ccz"].contains name := by
  unfold plain?
  split
  case h_13 hccx hcswap hccz _ =>
    have h1 := fun h => hccx a b c h rfl
    have h2 := fun h => hcswap a b c h rfl
    have h3 := fun h => hccz a b c h rfl
    simpa using ⟨h1, h2, h3⟩
  all_goals simp_all

theorem plain?_isSome_congr {name : String} {params : List R} {qubits qubits' : List Nat}
    (h : qubits.length = qubits'.length) :
    (plain? name qubits params).isSome = (plain? name qubits' params).isSome := by
  match qubits, qubits', h with
  | [], [], _ => rfl
  | [a], [b], _ =>
    unfold plain?
    split <;> simp_all
  | [a, b], [c, d], _ =>
    unfold plain?
    split
    case h_12 =>
      simp_all only [List.cons.injEq, imp_false, List.contains_eq_mem]
      obtain _ | ⟨angle, _ | ⟨_, _⟩⟩ := params <;> simp only [] <;> split <;> simp
    all_goals simp_all
  | [a, b, c], [d, e, f], _ => rw [plain?_three, plain?_three]
  | _ :: _ :: _ :: _ :: _, _ :: _ :: _ :: _ :: _, _ => simp [plain?]

theorem named_congr {name : String} {qubits qubits' : List Nat} {params : List Float}
    {m : Option Matrix} {operation : Operation R} (h : qubits.length = qubits'.length)
    (hop : named name qubits params m = .ok operation) :
    ∃ operation' : Operation R, named name qubits' params m = .ok operation' := by
  unfold named at hop ⊢
  split
  · next hname =>
    rw [if_pos hname] at hop
    split at hop
    · cases hop
    · rw [← h]
      split at hop
      · next hside => exact ⟨_, if_pos hside⟩
      · cases hop
  · next hname =>
    rw [if_neg hname] at hop
    split at hop
    · next hsome =>
      have hs : (plain? name qubits (params.map Scalar.ofFloat) : Option (Operation R)).isSome =
        (plain? name qubits' (params.map Scalar.ofFloat) : Option (Operation R)).isSome :=
        plain?_isSome_congr h
      rw [hsome, Option.isSome_some, eq_comm, Option.isSome_iff_exists] at hs
      obtain ⟨operation', hop'⟩ := hs
      exact ⟨operation', by simp [hop']⟩
    · cases hop

theorem map_named_congr {α β : Type} {name : String} {qubits qubits' : List Nat}
    {params : List Float} {m : Option Matrix} {f : Operation R → α} {g : Operation R → β} {a : α}
    (h : qubits.length = qubits'.length) (hop : (named name qubits params m).map f = .ok a) :
    ∃ b, (named name qubits' params m).map g = .ok b := by
  obtain ⟨operation, hop, -⟩ := map_eq_ok.1 hop
  obtain ⟨operation', hop'⟩ := named_congr h hop
  exact ⟨g operation', by rw [hop']; rfl⟩

theorem named_relay {name : String} (h : name ∈ Catalog.relayNames) (qubits : List Nat)
    (params : List Float) (m : Option Matrix) (operation : Operation R) :
    named name qubits params m ≠ .ok operation := by
  have hplain (params : List R) : plain? name qubits params = none := by
    simp only [Catalog.relayNames, List.mem_cons, List.not_mem_nil, or_false] at h
    rcases qubits with _ | ⟨a, _ | ⟨b, _ | ⟨c, _ | ⟨d, rest⟩⟩⟩⟩
    · rcases h with rfl | rfl | rfl | rfl <;> rfl
    · rcases h with rfl | rfl | rfl | rfl <;> rfl
    · rcases h with rfl | rfl | rfl | rfl <;> rfl
    · rcases h with rfl | rfl | rfl | rfl <;> rfl
    · simp [plain?]
  have hname : name ≠ Catalog.unitaryName := by
    rintro rfl
    revert h
    decide
  unfold named
  rw [if_neg hname, hplain]
  simp

end Operation

/-! ### Actions -/

namespace Action

theorem ofGate_congr {i : Instruction} {qubits qubits' : List Nat} {a : Action R}
    (hq : qubits.length = qubits'.length) (h : ofGate i qubits = .ok a) :
    ∃ a' : Action R, ofGate i qubits' = .ok a' := by
  unfold ofGate at h ⊢
  cases hstem : Catalog.afterStem? Catalog.conditionalStem i.name with
  | none =>
    rw [hstem] at h
    exact Operation.map_named_congr hq h
  | some base =>
    rw [hstem] at h
    match qubits, qubits', hq with
    | [], [], hq => exact Operation.map_named_congr hq h
    | q :: rest, q' :: rest', hq => exact Operation.map_named_congr (Nat.succ.inj hq) h

theorem ofRemoteGate_congr {i : Instruction} {base : String} {peer peer' : Nat}
    {qubits qubits' : List Nat} {a : Action R} (hq : qubits.length = qubits'.length)
    (h : ofRemoteGate i base peer qubits = .ok a) :
    ∃ a' : Action R, ofRemoteGate i base peer' qubits' = .ok a' := by
  unfold ofRemoteGate at h ⊢
  cases hbase : base == Catalog.unitaryName with
  | false =>
    rw [hbase] at h
    exact Operation.map_named_congr hq h
  | true =>
    rw [hbase] at h
    match qubits, qubits', hq with
    | [], [], hq => exact Operation.map_named_congr hq h
    | q :: rest, q' :: rest', hq => exact Operation.map_named_congr (Nat.succ.inj hq) h

theorem ofAnyGate_congr {i : Instruction} {peer peer' : Option Nat} {qubits qubits' : List Nat}
    {a : Action R} (hp : peer.isSome = peer'.isSome) (hq : qubits.length = qubits'.length)
    (h : ofAnyGate i peer qubits = .ok a) : ∃ a' : Action R, ofAnyGate i peer' qubits' = .ok a' := by
  unfold ofAnyGate at h ⊢
  cases hstem : Catalog.afterStem? Catalog.remoteStem i.name with
  | none =>
    rw [hstem] at h
    exact ofGate_congr hq h
  | some base =>
    rw [hstem] at h
    match peer, peer', hp with
    | none, none, _ => cases h
    | some p, some p', _ => exact ofRemoteGate_congr hq h

theorem ofInstruction_congr {ids ids' : List String} {offset offset' : Nat} {i : Instruction}
    {a : Action R} (hpeer : ∀ p, i.peer = some p → (p ∈ ids ↔ p ∈ ids'))
    (h : ofInstruction ids offset i = .ok a) :
    ∃ a' : Action R, ofInstruction ids' offset' i = .ok a' := by
  have hp : (i.peer.bind (ids.idxOf? ·)).isSome = (i.peer.bind (ids'.idxOf? ·)).isSome := by
    cases hi : i.peer with
    | none => rfl
    | some p =>
      rw [Bool.eq_iff_iff]
      simp [hpeer p hi]
  have hq : (i.qubits.map fun q => offset + q.toNat).length =
      (i.qubits.map fun q => offset' + q.toNat).length := by simp
  unfold ofInstruction at h ⊢
  simp only at h ⊢
  generalize (i.peer.bind (ids.idxOf? ·)) = peer at *
  generalize (i.peer.bind (ids'.idxOf? ·)) = peer' at *
  generalize (i.qubits.map fun q => offset + q.toNat) = qubits at *
  generalize (i.qubits.map fun q => offset' + q.toNat) = qubits' at *
  split at h
  case h_7 =>
    split
    case h_7 => exact ofAnyGate_congr hp hq h
    all_goals exact ⟨_, rfl⟩
  case h_1 | h_2 =>
    obtain ⟨q', rfl⟩ := List.length_eq_one_iff.1 hq.symm
    simp_all
  case h_3 | h_5 | h_6 =>
    obtain ⟨q', rfl⟩ := List.length_eq_one_iff.1 hq.symm
    obtain ⟨p', rfl⟩ := Option.isSome_iff_exists.1 hp.symm
    simp_all
  case h_4 =>
    obtain ⟨p', rfl⟩ := Option.isSome_iff_exists.1 hp.symm
    simp_all

theorem ofGate_relay {i : Instruction} (h : i.name ∈ Catalog.relayNames) (qubits : List Nat)
    (a : Action R) : ofGate i qubits ≠ .ok a := by
  have hstem : Catalog.afterStem? Catalog.conditionalStem i.name = none := by
    revert h
    generalize i.name = name
    revert name
    decide
  intro ha
  unfold ofGate at ha
  rw [hstem] at ha
  obtain ⟨operation, hop, -⟩ := map_eq_ok.1 ha
  exact Operation.named_relay h qubits i.params i.matrix operation hop

theorem relayEnd?_ofGate {i : Instruction} {qubits : List Nat} {a : Action R}
    (h : ofGate i qubits = .ok a) : a.relayEnd? = none := by
  unfold ofGate at h
  split at h
  · obtain ⟨operation, -, rfl⟩ := map_eq_ok.1 h
    rfl
  · obtain ⟨operation, -, rfl⟩ := map_eq_ok.1 h
    rfl

theorem relayEnd?_ofRemoteGate {i : Instruction} {base : String} {peer : Nat} {qubits : List Nat}
    {a : Action R} (h : ofRemoteGate i base peer qubits = .ok a) :
    a.relayEnd? = some (⟨.classical, .receive⟩, peer) := by
  unfold ofRemoteGate at h
  split at h
  · obtain ⟨operation, -, rfl⟩ := map_eq_ok.1 h
    rfl
  · obtain ⟨operation, -, rfl⟩ := map_eq_ok.1 h
    rfl

theorem relayEnd?_ofAnyGate {i : Instruction} {peer : Option Nat} {qubits : List Nat}
    {a : Action R} {s : Spec} (hs : Catalog.find? i.name = some s)
    (h : ofAnyGate i peer qubits = .ok a) :
    a.relayEnd? = i.relay.bind fun e => peer.map fun place => (e, place) := by
  have hrelay : i.relay = s.relay := by rw [Instruction.relay, hs, Option.bind_some]
  unfold ofAnyGate at h
  split at h
  · next base p hstem =>
    rw [relayEnd?_ofRemoteGate h, hrelay, Catalog.relay_remote hstem hs]
    rfl
  · cases h
  · next hstem =>
    have hnone : i.relay = none := by
      by_contra hne
      obtain ⟨e, he⟩ := Option.ne_none_iff_exists'.1 hne
      rcases Catalog.relay_cases hs (hrelay ▸ he) with hname | ⟨base, hbase⟩
      · exact ofGate_relay hname qubits a h
      · rw [hstem] at hbase
        cases hbase
    rw [relayEnd?_ofGate h, hnone]
    rfl

theorem relayEnd?_ofInstruction {ids : List String} {offset : Nat} {i : Instruction} {a : Action R}
    {s : Spec} (hs : Catalog.find? i.name = some s) (h : ofInstruction ids offset i = .ok a) :
    a.relayEnd? = i.relay.bind fun e => (i.peer.bind (ids.idxOf? ·)).map fun place => (e, place) := by
  unfold ofInstruction at h
  simp only at h
  generalize i.peer.bind (ids.idxOf? ·) = peer at *
  split at h
  case h_7 => exact relayEnd?_ofAnyGate hs h
  all_goals
    obtain rfl := Except.ok.inj h
    simp only [Instruction.relay, *]
    rfl

end Action

/-! ### Layouts -/

namespace Layout

/-- A request whose instructions are valid, with all their peers among the ids of a group. -/
def Runnable (ids : List String) (r : RunRequest) : Prop :=
  ∀ i ∈ r.instructions, (∃ s, i.validate r.numQubits r.numClbits r.id = .ok s) ∧
    ∀ p, i.peer = some p → p ∈ ids

/-- A member that carries a request out. -/
structure Placed (ids : List String) (r : RunRequest) (m : Member R) : Prop where
  id_eq : m.id = r.id
  instructions_eq : m.tasks.map (·.instruction) = r.instructions
  action_eq : ∀ t ∈ m.tasks, ∃ offset, Action.ofInstruction ids offset t.instruction = .ok t.action

theorem checkInstructions_eq_ok {ids : List String} {r : RunRequest} {is : List Instruction} :
    checkInstructions ids r is = .ok () ↔
      ∀ i ∈ is, (∃ s, i.validate r.numQubits r.numClbits r.id = .ok s) ∧
        ∀ p, i.peer = some p → p ∈ ids := by
  induction is with
  | nil => simp [checkInstructions]
  | cons i rest ih =>
    rw [checkInstructions, List.forall_mem_cons]
    cases hvalid : i.validate r.numQubits r.numClbits r.id with
    | error e => simp
    | ok s =>
      cases hpeer : i.peer with
      | none => simp [ih]
      | some p =>
        by_cases hp : p ∈ ids
        · simp [hp, ih]
        · simp [hp]

theorem checkRequests_eq_ok {ids : List String} {rs : List RunRequest} :
    checkRequests ids rs = .ok () ↔ ∀ r ∈ rs, Runnable ids r := by
  induction rs with
  | nil => simp [checkRequests]
  | cons r rest ih =>
    rw [checkRequests, List.forall_mem_cons, Runnable, ← checkInstructions_eq_ok, ← ih]
    split
    · next e he => simp [he]
    · next he => simp [he]

theorem tasksOf_eq_ok {ids : List String} {offset : Nat} {is : List Instruction}
    {tasks : List (Task R)} (h : tasksOf ids offset is = .ok tasks) :
    tasks.map (·.instruction) = is ∧
      ∀ t ∈ tasks, Action.ofInstruction ids offset t.instruction = .ok t.action := by
  induction is generalizing tasks with
  | nil =>
    obtain rfl := Except.ok.inj h
    simp
  | cons i rest ih =>
    rw [tasksOf] at h
    obtain ⟨action, haction, h⟩ := bind_eq_ok.1 h
    obtain ⟨others, hothers, h⟩ := bind_eq_ok.1 h
    obtain rfl := Except.ok.inj h
    obtain ⟨hmap, hall⟩ := ih hothers
    exact ⟨by rw [List.map_cons, hmap], List.forall_mem_cons.2 ⟨haction, hall⟩⟩

theorem exists_tasksOf {ids : List String} {offset : Nat} {is : List Instruction}
    (h : ∀ i ∈ is, ∃ a : Action R, Action.ofInstruction ids offset i = .ok a) :
    ∃ tasks : List (Task R), tasksOf ids offset is = .ok tasks := by
  induction is with
  | nil => exact ⟨[], rfl⟩
  | cons i rest ih =>
    obtain ⟨⟨action, haction⟩, hrest⟩ := List.forall_mem_cons.1 h
    obtain ⟨others, hothers⟩ := ih hrest
    exact ⟨⟨i, action⟩ :: others, by rw [tasksOf, haction, hothers]; rfl⟩

theorem forall₂_of_place {ids : List String} {offset : Nat} {rs : List RunRequest}
    {members : List (Member R)} (h : place ids offset rs = .ok members) :
    List.Forall₂ (Placed ids) rs members := by
  induction rs generalizing offset members with
  | nil =>
    obtain rfl := Except.ok.inj h
    exact .nil
  | cons r rest ih =>
    rw [place] at h
    obtain ⟨tasks, htasks, h⟩ := bind_eq_ok.1 h
    obtain ⟨others, hothers, h⟩ := bind_eq_ok.1 h
    obtain rfl := Except.ok.inj h
    obtain ⟨hmap, hall⟩ := tasksOf_eq_ok htasks
    exact .cons ⟨rfl, hmap, fun t ht => ⟨offset, hall t ht⟩⟩ (ih hothers)

theorem exists_place {ids : List String} {rs : List RunRequest}
    (h : ∀ r ∈ rs, ∀ i ∈ r.instructions, ∀ offset,
      ∃ a : Action R, Action.ofInstruction ids offset i = .ok a) (offset : Nat) :
    ∃ members : List (Member R), place ids offset rs = .ok members := by
  induction rs generalizing offset with
  | nil => exact ⟨[], rfl⟩
  | cons r rest ih =>
    obtain ⟨hr, hrest⟩ := List.forall_mem_cons.1 h
    obtain ⟨tasks, htasks⟩ := exists_tasksOf fun i hi => hr i hi offset
    obtain ⟨others, hothers⟩ := ih hrest (offset + r.numQubits.toNat)
    exact ⟨⟨r.id, r.numClbits.toNat, tasks⟩ :: others, by rw [place, htasks, hothers]; rfl⟩

theorem ofGroup_eq_ok {maxQubits : Nat} {group : List RunRequest} {l : Layout R} :
    ofGroup maxQubits group = .ok l ↔
      (group.map (·.id)).Nodup ∧ (∀ r ∈ group, Runnable (group.map (·.id)) r) ∧
      qubitsOf group + channelsOf group ≤ maxQubits ∧
      ∃ members, place (group.map (·.id)) 0 group = .ok members ∧
        l = ⟨members, qubitsOf group, channelsOf group⟩ := by
  unfold ofGroup
  simp only
  cases hrep : Names.firstRepeated? [] (group.map (·.id)) with
  | some id =>
    have hnot : ¬(group.map (·.id)).Nodup := fun h => by
      rw [Names.firstRepeated?_eq_none_iff.2 ⟨h, by simp⟩] at hrep
      cases hrep
    simp [hnot]
  | none =>
    have hnodup := (Names.firstRepeated?_eq_none_iff.1 hrep).1
    constructor
    · intro h
      obtain ⟨⟨⟩, hcheck, h⟩ := bind_eq_ok.1 h
      split at h
      · cases h
      · next hfit =>
        obtain ⟨members, hplace, h⟩ := bind_eq_ok.1 h
        obtain rfl := Except.ok.inj h
        exact ⟨hnodup, checkRequests_eq_ok.1 hcheck, Nat.not_lt.1 hfit, members, hplace, rfl⟩
    · rintro ⟨-, hrunnable, hfit, members, hplace, rfl⟩
      refine bind_eq_ok.2 ⟨(), checkRequests_eq_ok.2 hrunnable, ?_⟩
      rw [if_neg (Nat.not_lt.2 hfit), hplace]
      rfl

theorem contents_of_placed {ids : List String} {rs : List RunRequest} {members : List (Member R)}
    (h : List.Forall₂ (Placed ids) rs members) :
    members.map (fun m => (m.id, m.tasks.map (·.instruction))) =
      rs.map fun r => (r.id, r.instructions) := by
  induction h with
  | nil => rfl
  | cons hplaced _ ih =>
    rw [List.map_cons, List.map_cons, hplaced.id_eq, hplaced.instructions_eq, ih]

theorem ids_of_placed {ids : List String} {rs : List RunRequest} {members : List (Member R)}
    (h : List.Forall₂ (Placed ids) rs members) : members.map (·.id) = rs.map (·.id) := by
  simpa [Function.comp_def] using congrArg (List.map (·.1)) (contents_of_placed h)

theorem exists_placed {ids : List String} {rs : List RunRequest} {members : List (Member R)}
    (h : List.Forall₂ (Placed ids) rs members) {place : Nat} {r : RunRequest}
    (hr : rs[place]? = some r) : ∃ m, members[place]? = some m ∧ Placed ids r m := by
  induction h generalizing place with
  | nil => cases hr
  | @cons _ m _ _ hplaced _ ih =>
    cases place with
    | zero =>
      obtain rfl := Option.some.inj hr
      exact ⟨m, rfl, hplaced⟩
    | succ place => exact ih hr

/-- Whether a group is taken does not depend on its order. -/
theorem ofGroup_perm {maxQubits : Nat} {group group' : List RunRequest} {l : Layout R}
    (hperm : group'.Perm group) (h : ofGroup maxQubits group = .ok l) :
    ∃ l' : Layout R, ofGroup maxQubits group' = .ok l' := by
  obtain ⟨hnodup, hrunnable, hfit, members, hplace, -⟩ := ofGroup_eq_ok.1 h
  have hids : (group'.map (·.id)).Perm (group.map (·.id)) := hperm.map _
  obtain ⟨members', hplace'⟩ : ∃ members' : List (Member R),
      place (group'.map (·.id)) 0 group' = .ok members' := by
    refine exists_place (fun r hr i hi offset => ?_) 0
    obtain ⟨_, hr⟩ := List.mem_iff_getElem?.1 (hperm.mem_iff.1 hr)
    obtain ⟨m, -, hm⟩ := exists_placed (forall₂_of_place hplace) hr
    rw [← hm.instructions_eq] at hi
    obtain ⟨t, ht, rfl⟩ := List.mem_map.1 hi
    obtain ⟨_, ha⟩ := hm.action_eq t ht
    exact Action.ofInstruction_congr (fun p _ => hids.mem_iff.symm) ha
  refine ⟨_, ofGroup_eq_ok.2
    ⟨hids.nodup_iff.2 hnodup, fun r hr i hi => ?_, ?_, members', hplace', rfl⟩⟩
  · obtain ⟨hvalid, hpeer⟩ := hrunnable r (hperm.mem_iff.1 hr) i hi
    exact ⟨hvalid, fun p hp => hids.mem_iff.2 (hpeer p hp)⟩
  · rw [qubitsOf, channelsOf, (hperm.map _).foldr_eq, (hperm.map _).foldr_eq]
    exact hfit

end Layout

end QuantumRelay
