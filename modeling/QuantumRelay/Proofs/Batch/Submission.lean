import QuantumRelay.Batch.Submission
import QuantumRelay.Proofs.Batch.Resolution
import QuantumRelay.Proofs.Job.Operation

/-!
# What a submitted batch is

A batch that is submitted is resolved, all its instructions are valid, and its jobs ask for its
circuits in their order, each of its endpoint and all in the same way (`submit_eq_ok`). What the
network does with the requests plays no part in that. With an open session, a batch whose jobs can be
made is submitted (`exists_submit`).
-/

namespace QuantumRelay

def Resolution.execType (r : Resolution) : ExecType :=
  if r.isDistributed then .dynamic else .offloading

namespace SubmittedBatch

variable {ω : Type} {circuits : List Snapshot} {endpoints : List Endpoint} {config : RunConfig}
  {execType : ExecType} {b : SubmittedBatch}

/-! ### Making jobs -/

/-- A job as it is made, for a circuit and the endpoint at its place. -/
structure MadeFor (config : RunConfig) (execType : ExecType) (p : Snapshot × Endpoint) (j : Job) :
    Prop where
  normalized : p.1.normalized = .ok j.snapshot
  endpoint : j.endpoint = p.2
  config : j.config = config
  execType : j.execType = execType
  isConfigured : j.isConfigured = true

namespace MadeFor

variable {p : Snapshot × Endpoint} {j : Job}

theorem valid (h : MadeFor config execType p j) : p.1.Valid :=
  (Snapshot.normalized_eq_ok h.normalized).1

theorem request_eq (h : MadeFor config execType p j) :
    j.request = .ofSnapshot p.1 config execType := by
  rw [Job.request, h.config, h.execType, ← (Snapshot.normalized_eq_ok h.normalized).2]
  rfl

end MadeFor

theorem madeFor_of_makeJobs {next : Nat} {pairs : List (Snapshot × Endpoint)} {jobs : List Job}
    (h : makeJobs config execType next pairs = .ok jobs) :
    List.Forall₂ (MadeFor config execType) pairs jobs := by
  induction pairs generalizing next jobs with
  | nil =>
    obtain rfl := Except.ok.inj h
    exact .nil
  | cons p rest ih =>
    obtain ⟨j, hj, h⟩ := bind_eq_ok.1 h
    obtain ⟨others, hothers, h⟩ := bind_eq_ok.1 h
    obtain rfl := Except.ok.inj h
    obtain ⟨snapshot, hs, -, -, rfl⟩ := Job.ofExecType_eq_ok.1 hj
    exact .cons ⟨hs, rfl, rfl, rfl, rfl⟩ (ih hothers)

theorem makeJobs_eq_ok {next : Nat} {pairs : List (Snapshot × Endpoint)} {jobs : List Job}
    (h : makeJobs config execType next pairs = .ok jobs) :
    (∀ p ∈ pairs, p.1.Valid) ∧
      jobs.map Job.request = (pairs.map (·.1)).map (.ofSnapshot · config execType) ∧
      jobs.map (·.endpoint) = pairs.map (·.2) := by
  have hmade := madeFor_of_makeJobs h
  clear h
  induction hmade with
  | nil => exact ⟨fun p hp => absurd hp List.not_mem_nil, rfl, rfl⟩
  | cons hj _ ih =>
    obtain ⟨hvalids, hrequests, hendpoints⟩ := ih
    refine ⟨List.forall_mem_cons.2 ⟨hj.valid, hvalids⟩, ?_, ?_⟩
    · rw [List.map_cons, List.map_cons, List.map_cons, hj.request_eq, hrequests]
    · rw [List.map_cons, List.map_cons, hj.endpoint, hendpoints]

/-! ### Submitting jobs -/

variable [Network ω]

theorem request_of_submit {j j' : Job} {w w' : Session ω} {outcome : Except JobError Unit}
    (h : j.submit w = (outcome, j', w')) :
    j'.request = j.request ∧ j'.endpoint = j.endpoint := by
  cases hconfigured : j.isConfigured with
  | false =>
    rw [Job.submit_again hconfigured] at h
    obtain ⟨-, rfl, -⟩ := by simpa only [Prod.mk.injEq] using h
    exact ⟨rfl, rfl⟩
  | true =>
    cases hopen : w.isOpen with
    | false =>
      rw [Job.submit_of_closed hconfigured hopen] at h
      obtain ⟨-, rfl, -⟩ := by simpa only [Prod.mk.injEq] using h
      exact ⟨rfl, rfl⟩
    | true =>
      rw [Job.submit_of_isOpen hconfigured hopen] at h
      obtain ⟨-, rfl, -⟩ := by simpa only [Prod.mk.injEq] using h
      exact ⟨rfl, rfl⟩

theorem requests_of_submitJobs {jobs jobs' : List Job} {w : Session ω}
    (h : (submitJobs w jobs).1 = .ok jobs') :
    jobs'.map Job.request = jobs.map Job.request ∧
      jobs'.map (·.endpoint) = jobs.map (·.endpoint) := by
  induction jobs generalizing w jobs' with
  | nil =>
    obtain rfl := Except.ok.inj h
    exact ⟨rfl, rfl⟩
  | cons j rest ih =>
    rw [submitJobs] at h
    cases hj : j.submit w with
    | mk outcome jw =>
    obtain ⟨j', w'⟩ := jw
    obtain ⟨hrequest, hendpoint⟩ := request_of_submit hj
    rw [hj] at h
    cases outcome with
    | error e => cases h
    | ok u =>
      obtain ⟨others, hothers, rfl⟩ := map_eq_ok.1 h
      obtain ⟨hrequests, hendpoints⟩ := ih hothers
      exact ⟨by rw [List.map_cons, List.map_cons, hrequest, hrequests],
        by rw [List.map_cons, List.map_cons, hendpoint, hendpoints]⟩

theorem submit_eq_ok {w : Session ω} (h : (submit circuits endpoints config w).1 = .ok b) :
    Resolution.ofBatch .report circuits = .ok b.resolution ∧ (∀ s ∈ circuits, s.Valid) ∧
      b.jobs.map Job.request =
        circuits.map (.ofSnapshot · config b.resolution.execType) ∧
      b.jobs.map (·.endpoint) = endpoints := by
  unfold submit at h
  split at h
  · cases h
  · next hlen =>
    have hlen : circuits.length = endpoints.length := Decidable.not_not.1 hlen
    split at h
    · cases h
    · next resolution hresolution =>
      dsimp only at h
      split at h
      · cases h
      · next jobs hjobs =>
        obtain ⟨jobs', hjobs', rfl⟩ := map_eq_ok.1 h
        obtain ⟨hrequests, hendpoints⟩ := requests_of_submitJobs hjobs'
        obtain ⟨hvalids, hmade, hends⟩ := makeJobs_eq_ok hjobs
        have hfst : (circuits.zip endpoints).map (·.1) = circuits :=
          List.map_fst_zip (Nat.le_of_eq hlen)
        have hsnd : (circuits.zip endpoints).map (·.2) = endpoints :=
          List.map_snd_zip (Nat.le_of_eq hlen.symm)
        refine ⟨hresolution, fun s hs => ?_, ?_, by rw [hendpoints, hends, hsnd]⟩
        · rw [← hfst] at hs
          obtain ⟨p, hp, rfl⟩ := List.mem_map.1 hs
          exact hvalids p hp
        · rw [hrequests, hmade, hfst]
          rfl

/-! ### Batches that are submitted -/

theorem exists_submitJobs {w : Session ω} (hopen : w.isOpen = true) (jobs : List Job) :
    ∃ jobs', (submitJobs w jobs).1 = .ok jobs' := by
  induction jobs generalizing w with
  | nil => exact ⟨[], rfl⟩
  | cons j rest ih =>
    obtain ⟨j', w', hj, hopen'⟩ : ∃ j' w', j.submit w = (.ok (), j', w') ∧ w'.isOpen = true := by
      unfold Job.submit Session.send
      rw [if_pos hopen]
      split
      · exact ⟨j, _, rfl, hopen⟩
      · exact ⟨_, _, rfl, hopen⟩
    obtain ⟨others, hothers⟩ := ih hopen'
    refine ⟨j' :: others, ?_⟩
    rw [submitJobs, hj]
    exact map_eq_ok.2 ⟨others, hothers, rfl⟩

theorem exists_submit {w : Session ω} {resolution : Resolution} {jobs : List Job}
    (hopen : w.isOpen = true) (hlen : circuits.length = endpoints.length)
    (hresolution : Resolution.ofBatch .report circuits = .ok resolution)
    (hjobs : makeJobs config resolution.execType 0 (circuits.zip endpoints) = .ok jobs) :
    ∃ b, (submit circuits endpoints config w).1 = .ok b ∧ b.resolution = resolution := by
  obtain ⟨jobs', hjobs'⟩ := exists_submitJobs (w := w.note resolution.notices) hopen jobs
  refine ⟨⟨jobs', resolution⟩, ?_, rfl⟩
  unfold Resolution.execType at hjobs
  unfold submit
  rw [if_neg (Decidable.not_not.2 hlen), hresolution]
  dsimp only
  rw [hjobs]
  exact map_eq_ok.2 ⟨jobs', hjobs', rfl⟩

end SubmittedBatch

end QuantumRelay
