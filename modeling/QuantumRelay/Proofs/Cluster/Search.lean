import Mathlib.Data.List.Sort
import Mathlib.Data.String.Basic
import Mathlib.Order.Bounds.Defs
import QuantumRelay.Proofs.Cluster.Gather
import QuantumRelay.Proofs.Stopping

/-!
# The search as a work list

A search takes one circuit after the other from a queue that may hold it many times and that grows while
it goes on; `Turn` is what it does with the first one. It still cannot go on for ever
(`turn_wellFounded`): a turn that makes the queue longer finds a circuit that is here, and there are only
so many of these. The circuits that were found before can be dropped from a queue (`search_congr`), so a
turn leaves what `Reach.search` gives for the rest as it was, and a search that has stopped has found just
that (`parts_of_stopped`).

What is found is the least set that holds the start and, with every circuit under which a request is
parked, all the peers of this request (`reached_least`).
-/

namespace QuantumRelay

namespace Reach

variable {peers : KeyMap (List String)}

/-! ### One circuit at a time -/

theorem search_nil (seen : List String) : search peers seen [] = seen := by
  rw [search]

theorem search_found {seen queue : List String} {id : String} (hs : id ∈ seen) :
    search peers seen (id :: queue) = search peers seen queue := by
  rw [search, dif_pos (by simpa using hs)]

theorem search_here {seen queue named : List String} {id : String} (hs : id ∉ seen)
    (hp : peers.find? id = some named) :
    search peers seen (id :: queue) = search peers (id :: seen) (queue ++ named) := by
  rw [search, dif_neg (by simpa using hs)]
  split
  · next hp' => rw [Option.some.inj (hp'.symm.trans hp)]
  · next hp' => cases hp'.symm.trans hp

theorem search_absent {seen queue : List String} {id : String} (hs : id ∉ seen)
    (hp : peers.find? id = none) :
    search peers seen (id :: queue) = search peers (id :: seen) queue := by
  rw [search, dif_neg (by simpa using hs)]
  split
  · next hp' => cases hp'.symm.trans hp
  · rfl

/-- What of a queue has not been found. -/
def unfound (seen queue : List String) : List String := queue.filter fun id => !seen.contains id

theorem unfound_cons (seen queue : List String) (id : String) :
    unfound (id :: seen) queue = (unfound seen queue).filter fun x => !(x == id) := by
  rw [unfound, unfound, List.filter_filter]
  refine List.filter_congr fun x _ => ?_
  rw [List.contains_cons, Bool.not_or]

theorem unfound_append (seen queue more : List String) :
    unfound seen (queue ++ more) = unfound seen queue ++ unfound seen more := List.filter_append ..

theorem unfound_unfound (seen queue : List String) :
    unfound seen (unfound seen queue) = unfound seen queue := by
  simp only [unfound, List.filter_filter, Bool.and_self]

theorem search_append {seen passed queue : List String} (h : ∀ id ∈ passed, id ∈ seen) :
    search peers seen (passed ++ queue) = search peers seen queue := by
  induction passed with
  | nil => rfl
  | cons id rest ih =>
    obtain ⟨hid, hrest⟩ := List.forall_mem_cons.1 h
    rw [List.cons_append, search_found hid, ih hrest]

theorem search_congr (seen queue : List String) : ∀ other : List String,
    unfound seen other = unfound seen queue → search peers seen other = search peers seen queue := by
  -- the first circuit of the queue that has not been found is the first such circuit of the other one
  have hsplit {seen queue other : List String} {id : String} (hs : id ∉ seen)
      (h : unfound seen other = unfound seen (id :: queue)) : ∃ passed rest,
        other = passed ++ id :: rest ∧ (∀ x ∈ passed, x ∈ seen) ∧
          unfound seen rest = unfound seen queue := by
    unfold unfound at h
    rw [List.filter_cons_of_pos (by simpa using hs)] at h
    obtain ⟨passed, rest, hother, hpassed, -, hrest⟩ := List.filter_eq_cons_iff.1 h
    exact ⟨passed, rest, hother, fun x hx => by simpa using hpassed x hx, hrest⟩
  fun_induction search peers seen queue with
  | case1 seen =>
    intro other h
    have hall : ∀ id ∈ other, id ∈ seen := fun id hid => by
      simpa using List.filter_eq_nil_iff.1 h id hid
    have hpassed : search peers seen (other ++ []) = search peers seen [] := search_append hall
    rwa [List.append_nil, search_nil] at hpassed
  | case2 seen id queue hs ih =>
    intro other h
    exact ih other (h.trans (List.filter_cons_of_neg (by simpa using hs)))
  | case3 seen id queue hs named hp ih =>
    intro other h
    have hs : id ∉ seen := by simpa using hs
    obtain ⟨passed, rest, rfl, hpassed, hrest⟩ := hsplit hs h
    rw [search_append hpassed, search_here hs hp]
    refine ih (rest ++ named) ?_
    rw [unfound_cons, unfound_cons, unfound_append, unfound_append, hrest]
  | case4 seen id queue hs hp ih =>
    intro other h
    have hs : id ∉ seen := by simpa using hs
    obtain ⟨passed, rest, rfl, hpassed, hrest⟩ := hsplit hs h
    rw [search_append hpassed, search_absent hs hp]
    refine ih rest ?_
    rw [unfound_cons, unfound_cons, hrest]

/-! ### Turns -/

structure Search where
  /-- What has been found, -/
  seen : List String
  /-- what of it is not here, -/
  missing : List String
  /-- and what is to be looked at. -/
  queue : List String

namespace Search

def ofStart (start : String) : Search := ⟨[], [], [start]⟩

/-- What has been found and is here, and what has been found and is not, each in order. -/
def parts (s : Search) : List String × List String :=
  (Names.sorted (s.seen.filter fun id => !s.missing.contains id), Names.sorted s.missing)

end Search

/-- What a search does with the first circuit of its queue. -/
inductive Turn (peers : KeyMap (List String)) : Search → Search → Prop
  /-- It has been found before. -/
  | found {seen missing queue : List String} {id : String} (hs : id ∈ seen) :
      Turn peers ⟨seen, missing, id :: queue⟩ ⟨seen, missing, queue⟩
  /-- It is here, and what it names is to be looked at unless it has been found. -/
  | here {seen missing queue named : List String} {id : String} (hs : id ∉ seen)
      (hp : peers.find? id = some named) :
      Turn peers ⟨seen, missing, id :: queue⟩
        ⟨id :: seen, missing, queue ++ unfound (id :: seen) named⟩
  /-- It is not here. -/
  | absent {seen missing queue : List String} {id : String} (hs : id ∉ seen)
      (hp : peers.find? id = none) :
      Turn peers ⟨seen, missing, id :: queue⟩ ⟨id :: seen, id :: missing, queue⟩

theorem turn_wellFounded (peers : KeyMap (List String)) :
    WellFounded fun after before => Turn peers before after := by
  -- a turn finds a circuit that is here, or else makes the queue shorter
  refine Subrelation.wf (fun {after before} h => ?_)
    (InvImage.wf (fun s : Search => (unseen peers s.seen, s.queue.length))
      (WellFounded.prod_lex Nat.lt_wfRel.wf Nat.lt_wfRel.wf))
  cases h with
  | found hs => exact Prod.Lex.right _ (Nat.lt_succ_self _)
  | here hs hp => exact Prod.Lex.left _ _ (unseen_cons_lt hp (by simpa using hs))
  | @absent seen missing queue id hs hp =>
    rcases Nat.lt_or_eq_of_le (unseen_cons_le peers seen id) with h | h
    · exact Prod.Lex.left _ _ h
    · show Prod.Lex _ _ (unseen peers (id :: seen), queue.length) (unseen peers seen, _)
      rw [h]
      exact Prod.Lex.right _ (Nat.lt_succ_self _)

theorem stopped_iff {s : Search} : (∀ after, ¬Turn peers s after) ↔ s.queue = [] := by
  obtain ⟨seen, missing, queue⟩ := s
  cases queue with
  | nil => exact ⟨fun _ => rfl, fun _ after h => nomatch h⟩
  | cons id rest =>
    refine ⟨fun h => ?_, fun h => nomatch h⟩
    by_cases hs : id ∈ seen
    · exact absurd (.found hs) (h _)
    · cases hp : peers.find? id with
      | some named => exact absurd (.here hs hp) (h _)
      | none => exact absurd (.absent hs hp) (h _)

/-- A search on its way from a start: what there is still to find has not changed, and what is missing
is told by what has been found. -/
structure OnItsWay (peers : KeyMap (List String)) (start : String) (s : Search) : Prop where
  search : search peers s.seen s.queue = search peers [] [start]
  missing : ∀ id, id ∈ s.missing ↔ id ∈ s.seen ∧ peers.contains id = false

theorem OnItsWay.turn {start : String} {s after : Search} (h : OnItsWay peers start s)
    (hturn : Turn peers s after) : OnItsWay peers start after := by
  obtain ⟨hsearch, hmissing⟩ := h
  cases hturn with
  | found hs =>
    rw [search_found hs] at hsearch
    exact ⟨hsearch, hmissing⟩
  | @here seen missing queue named id hs hp =>
    rw [search_here hs hp] at hsearch
    refine ⟨Eq.trans (search_congr _ _ _ ?_) hsearch, fun x => ?_⟩
    · rw [unfound_append, unfound_append, unfound_unfound]
    · have hhere : peers.contains id = true := KeyMap.contains_iff.2 ⟨named, hp⟩
      rw [hmissing, List.mem_cons]
      constructor
      · exact fun ⟨hx, hnot⟩ => ⟨.inr hx, hnot⟩
      · rintro ⟨rfl | hx, hnot⟩
        · cases hhere.symm.trans hnot
        · exact ⟨hx, hnot⟩
  | @absent seen missing queue id hs hp =>
    rw [search_absent hs hp] at hsearch
    refine ⟨hsearch, fun x => ?_⟩
    have hnot : peers.contains id = false := by rw [KeyMap.contains, hp]; rfl
    rw [List.mem_cons, List.mem_cons, hmissing]
    constructor
    · rintro (rfl | ⟨hx, hxnot⟩)
      · exact ⟨.inl rfl, hnot⟩
      · exact ⟨.inr hx, hxnot⟩
    · rintro ⟨rfl | hx, hxnot⟩
      · exact .inl rfl
      · exact .inr ⟨hx, hxnot⟩

theorem onItsWay_of_turns {start : String} {s : Search}
    (h : Relation.ReflTransGen (Turn peers) (.ofStart start) s) : OnItsWay peers start s := by
  induction h with
  | refl => exact ⟨rfl, fun id => by simp [Search.ofStart]⟩
  | tail _ hturn ih => exact ih.turn hturn

theorem missing_sorted (peers : KeyMap (List String)) (start : String) :
    (missing peers start).Pairwise (· < ·) := Names.sorted_sorted _

theorem parts_of_stopped {start : String} {s : Search}
    (h : Relation.ReflTransGen (Turn peers) (.ofStart start) s)
    (hstopped : ∀ after, ¬Turn peers s after) :
    s.parts = (group peers start, missing peers start) := by
  obtain ⟨hsearch, hmissing⟩ := onItsWay_of_turns h
  rw [stopped_iff.1 hstopped, search_nil] at hsearch
  have hseen (id : String) : id ∈ s.seen ↔ Reaches peers start id := by
    rw [hsearch, mem_search_iff]
  refine Prod.ext ?_ ?_
  · refine (Names.sorted_sorted _).eq_of_mem_iff (group_sorted peers start) fun id => ?_
    have hhere : (!s.missing.contains id) = true ↔
        ¬(Reaches peers start id ∧ peers.contains id = false) := by
      rw [← hseen, ← hmissing]
      simp
    rw [Names.mem_sorted, List.mem_filter, hseen, hhere, mem_group_iff]
    refine and_congr_right fun hid => ?_
    rw [not_and, Bool.not_eq_false]
    exact ⟨fun h => h hid, fun h _ => h⟩
  · refine (Names.sorted_sorted _).eq_of_mem_iff (missing_sorted peers start) fun id => ?_
    rw [Names.mem_sorted, hmissing, hseen, mem_missing_iff]

end Reach

namespace Cluster

open Reach (Search Turn)

/-! ### The least closed set -/

/-- A set of circuits that holds a start and, with every circuit under which a request is parked, the peer
of each instruction of this request. -/
structure HoldsPeers (parked : KeyMap Parked) (start : String) (circuits : Set String) : Prop where
  start_mem : start ∈ circuits
  peer_mem : ∀ id ∈ circuits, ∀ p, parked.find? id = some p →
    ∀ i ∈ p.request.instructions, ∀ peer, i.peer = some peer → peer ∈ circuits

/-- The circuits that are reached are the least such set. -/
theorem reaches_isLeast (c : Cluster) (start : String) :
    IsLeast {circuits | HoldsPeers c.parked start circuits} {id | Reach.Reaches c.peers start id} := by
  constructor
  · refine ⟨.refl, fun id hid p hp i hi peer hpeer => ?_⟩
    exact hid.tail (refers_peers_iff.2 ⟨p, hp, List.mem_filterMap.2 ⟨i, hi, hpeer⟩⟩)
  · intro circuits h id hid
    induction hid with
    | refl => exact h.start_mem
    | tail _ hrefers ih =>
      obtain ⟨p, hp, hnamed⟩ := refers_peers_iff.1 hrefers
      obtain ⟨i, hi, hpeer⟩ := List.mem_filterMap.1 hnamed
      exact h.peer_mem _ ih p hp i hi _ hpeer

/-- What comes of searching for all that a circuit depends on. -/
structure Found (c : Cluster) (start : String) : Prop where
  /-- No search goes on for ever, so it stops, -/
  ends : WellFounded fun after before => Turn c.peers before after
  stops : ∃ s, Relation.ReflTransGen (Turn c.peers) (.ofStart start) s ∧ ∀ after, ¬Turn c.peers s after
  /-- and when it has stopped, it has found the group and the missing circuits. -/
  parts : ∀ s, Relation.ReflTransGen (Turn c.peers) (.ofStart start) s →
    (∀ after, ¬Turn c.peers s after) → s.parts = (Reach.group c.peers start, Reach.missing c.peers start)
  /-- These are what is parked and what is not of the least set that holds the peers of its members, -/
  least : ∃ circuits, IsLeast {circuits | HoldsPeers c.parked start circuits} circuits ∧
    {id | id ∈ Reach.group c.peers start} = circuits ∩ {id | c.parked.contains id = true} ∧
    {id | id ∈ Reach.missing c.peers start} = circuits \ {id | c.parked.contains id = true}
  /-- each circuit once and in order. -/
  sorted : (Reach.group c.peers start).Pairwise (· < ·) ∧
    (Reach.missing c.peers start).Pairwise (· < ·)

/-- Whatever is parked, a search from any circuit ends and finds the least set that holds the peers of its
members. -/
theorem reached_least (c : Cluster) (start : String) : Found c start where
  ends := Reach.turn_wellFounded c.peers
  stops := exists_stopped (Reach.turn_wellFounded c.peers) _
  parts _ := Reach.parts_of_stopped
  least := by
    have hhere (id : String) : c.peers.contains id = c.parked.contains id := KeyMap.contains_map ..
    refine ⟨_, reaches_isLeast c start, Set.ext fun id => ?_, Set.ext fun id => ?_⟩
    · show id ∈ Reach.group c.peers start ↔ _ ∧ c.parked.contains id = true
      rw [Reach.mem_group_iff, hhere]
      rfl
    · show id ∈ Reach.missing c.peers start ↔ _ ∧ ¬c.parked.contains id = true
      rw [Reach.mem_missing_iff, hhere, Bool.not_eq_true]
      rfl
  sorted := ⟨Reach.group_sorted c.peers start, Reach.missing_sorted c.peers start⟩

end Cluster

end QuantumRelay
