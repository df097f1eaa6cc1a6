import QuantumRelay.Proofs.Engine.Placement

/-!
# One count map for every request

No step of a shot changes how many classical bits a circuit has, so a shot ends with as many bits as its
circuits have (`widths_runShot`). No circuit is added or dropped: a group that is run with success has
one count map for every request (`length_of_run`), and the answers to it match its members one by one.
-/

namespace QuantumRelay

variable {σ R : Type} [Scalar R] [DrawSource σ]

namespace Engine

theorem widths_advance (own : Nat) (tasks : List (Task R)) (s : Shot σ R) :
    (advance own tasks s).2.widths = s.widths := by
  induction tasks generalizing s with
  | nil => rfl
  | cons t rest ih =>
    rw [advance]
    split
    · next s' h => rw [ih, Action.perform?_widths h]
    · rfl

theorem widths_round (own : Nat) (work : List (List (Task R))) (s : Shot σ R) :
    (round own work s).2.widths = s.widths := by
  induction work generalizing own s with
  | nil => rfl
  | cons tasks rest ih =>
    rw [round]
    exact (ih _ _).trans (widths_advance own tasks s)

theorem settle_eq (work : List (List (Task R))) (s : Shot σ R) :
    settle work s =
      if pending (round 0 work s).1 < pending work then
        settle (round 0 work s).1 (round 0 work s).2
      else round 0 work s := by
  rw [settle]

theorem settle_keeps {P : List (List (Task R)) → Shot σ R → Prop}
    (hround : ∀ work s, P work s → P (round 0 work s).1 (round 0 work s).2)
    (work : List (List (Task R))) (s : Shot σ R) (h : P work s) :
    P (settle work s).1 (settle work s).2 := by
  induction hn : pending work using Nat.strongRecOn generalizing work s with
  | ind n ih =>
    rw [settle_eq]
    split
    · next hlt => exact ih _ (hn ▸ hlt) _ _ (hround work s h) rfl
    · exact hround work s h

theorem widths_runShot {l : Layout R} {source : σ} {s : Shot σ R} (h : runShot l source = .ok s) :
    s.widths = l.members.map (·.numClbits) := by
  have hstart : (Shot.start l source).widths = l.members.map (·.numClbits) := by
    simp [Shot.widths, Shot.start, Function.comp_def]
  have hkept := settle_keeps (P := fun _ s => s.widths = l.members.map (·.numClbits))
    (fun work s hs => (widths_round 0 work s).trans hs) (l.members.map (·.tasks))
    (Shot.start l source) hstart
  rw [runShot] at h
  split at h
  next left s' hsettle =>
  rw [hsettle] at hkept
  split at h
  · obtain rfl := Except.ok.inj h
    exact hkept
  · cases h

theorem length_runShot {l : Layout R} {source : σ} {s : Shot σ R} (h : runShot l source = .ok s) :
    s.clbits.length = l.members.length := by
  have hlength := congrArg List.length (widths_runShot h)
  rwa [Shot.widths, List.length_map, List.length_map] at hlength

theorem length_runShots {l : Layout R} {n : Nat} {source : σ} {counts result : List Counts}
    (hc : counts.length = l.members.length) (h : runShots l n source counts = .ok result) :
    result.length = l.members.length := by
  induction n generalizing source counts with
  | zero =>
    obtain rfl := Except.ok.inj h
    exact hc
  | succ n ih =>
    rw [runShots] at h
    split at h
    · cases h
    · next s hs =>
      refine ih ?_ h
      rw [List.length_zipWith, hc, length_runShot hs, Nat.min_self]

theorem length_of_run {maxQubits : Nat} {otherwise : UInt64} {group : List RunRequest}
    {config : RunConfig} {counts : List Counts}
    (h : run maxQubits otherwise group config = .ok counts) : counts.length = group.length := by
  unfold run simulate at h
  split at h
  · obtain ⟨l, hl, h⟩ := bind_eq_ok.1 h
    obtain ⟨-, -, -, members, hplace, rfl⟩ := Layout.ofGroup_eq_ok.1 hl
    have hlen := (Layout.forall₂_of_place hplace).length_eq
    rw [hlen]
    exact length_runShots (by rw [List.length_map, hlen]) h
  · cases h

end Engine

end QuantumRelay
