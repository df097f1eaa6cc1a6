import QuantumRelay.Proofs.Batch.Submission

/-!
# What a batch sends

A batch is submitted as a whole or not at all. Over any network: if it is refused, for whatever reason,
the network is as it was; if it is taken, the network has carried one request for each circuit, to the
endpoint at its place, and all ask to be run in the way that the relays of the batch call for
(`submit_sends`).
-/

namespace QuantumRelay.SubmittedBatch

variable {ω : Type} {circuits : List Snapshot} {endpoints : List Endpoint} {config : RunConfig}
  {execType : ExecType}

/-! ### Making jobs -/

def Fits (p : Snapshot × Endpoint) : Prop :=
  ∃ s, p.1.normalized = .ok s ∧ p.2.backend.fault? s = none

theorem exists_makeJobs_iff {next : Nat} {pairs : List (Snapshot × Endpoint)} :
    (∃ jobs, makeJobs config execType next pairs = .ok jobs) ↔
      ∀ p ∈ pairs, Fits p ∧ config.fault? = none := by
  induction pairs generalizing next with
  | nil => simp [makeJobs]
  | cons p rest ih =>
    rw [List.forall_mem_cons, ← @ih (next + 1)]
    constructor
    · rintro ⟨jobs, h⟩
      obtain ⟨j, hj, h⟩ := bind_eq_ok.1 h
      obtain ⟨others, hothers, -⟩ := bind_eq_ok.1 h
      obtain ⟨snapshot, hs, hconfig, hbackend, -⟩ := Job.ofExecType_eq_ok.1 hj
      exact ⟨⟨⟨snapshot, hs, hbackend⟩, hconfig⟩, others, hothers⟩
    · rintro ⟨⟨⟨snapshot, hs, hbackend⟩, hconfig⟩, others, hothers⟩
      have hj : Job.ofExecType s!"#{next}" p.2 p.1 config execType = .ok _ :=
        Job.ofExecType_eq_ok.2 ⟨snapshot, hs, hconfig, hbackend, rfl⟩
      exact ⟨_, bind_eq_ok.2 ⟨_, hj, bind_eq_ok.2 ⟨others, hothers, rfl⟩⟩⟩

/-! ### Submitting jobs -/

variable [Network ω]

theorem submitJobs_of_closed {w : Session ω} (hopen : w.isOpen = false) {jobs : List Job}
    (hjobs : ∀ j ∈ jobs, j.isConfigured = true) :
    submitJobs w jobs =
      (if jobs = [] then .ok [] else .error (.configuration .closedSession), w) := by
  cases jobs with
  | nil => rfl
  | cons j rest =>
    have hj : j.isConfigured = true := hjobs j List.mem_cons_self
    rw [submitJobs, Job.submit_of_closed hj hopen]
    rfl

def requestOf (j : Job) : Nat × Message := (j.endpoint.socket, .run j.request)

theorem submitJobs_of_isOpen {w : Session (Recorded ω)} (hopen : w.isOpen = true) {jobs : List Job}
    (hjobs : ∀ j ∈ jobs, j.isConfigured = true) :
    (∃ jobs', (submitJobs w jobs).1 = .ok jobs') ∧
      (submitJobs w jobs).2.network.sent = w.network.sent ++ jobs.map requestOf := by
  induction jobs generalizing w with
  | nil => exact ⟨⟨[], rfl⟩, (List.append_nil _).symm⟩
  | cons j rest ih =>
    obtain ⟨hj, hrest⟩ := List.forall_mem_cons.1 hjobs
    have hsent : (w.sending j.endpoint (.run j.request)).network.sent =
        w.network.sent ++ [requestOf j] := Recorded.sent_send ..
    obtain ⟨⟨others, hothers⟩, hsends⟩ :=
      ih (w := w.sending j.endpoint (.run j.request)) hopen hrest
    rw [submitJobs, Job.submit_of_isOpen hj hopen]
    refine ⟨⟨_, map_eq_ok.2 ⟨others, hothers, rfl⟩⟩, ?_⟩
    calc (submitJobs (w.sending j.endpoint (.run j.request)) rest).2.network.sent
        = (w.sending j.endpoint (.run j.request)).network.sent ++ rest.map requestOf := hsends
      _ = w.network.sent ++ (j :: rest).map requestOf := by
        rw [hsent, List.append_assoc, List.map_cons, List.singleton_append]

/-! ### Submitting a batch -/

/-- What has to be so for a batch to be submitted. -/
structure Submittable (circuits : List Snapshot) (endpoints : List Endpoint) (config : RunConfig)
    (isOpen : Bool) : Prop where
  even : circuits.length = endpoints.length
  resolves : ∃ resolution, Resolution.ofBatch .report circuits = .ok resolution
  fits : ∀ p ∈ circuits.zip endpoints, Fits p
  settings : circuits ≠ [] → config.fault? = none
  session : circuits ≠ [] → isOpen = true

/-- The requests for circuits, each to the socket of the endpoint at its place. -/
def requestsTo (endpoints : List Endpoint) (config : RunConfig) (execType : ExecType)
    (normalized : List Snapshot) : List (Nat × Message) :=
  List.zipWith (fun s e => (e.socket, .run (.ofSnapshot s config execType))) normalized endpoints

theorem map_requestOf {jobs : List Job} (hlen : circuits.length = endpoints.length)
    (hjobs : List.Forall₂ (MadeFor config execType) (circuits.zip endpoints) jobs) :
    List.Forall₂ (fun s s' => s.normalized = .ok s') circuits (jobs.map (·.snapshot)) ∧
      jobs.map requestOf = requestsTo endpoints config execType (jobs.map (·.snapshot)) := by
  induction circuits generalizing endpoints jobs with
  | nil =>
    cases hjobs
    exact ⟨.nil, rfl⟩
  | cons s rest ih =>
    cases endpoints with
    | nil => cases hlen
    | cons e others =>
      cases hjobs with
      | cons hj hrest =>
        obtain ⟨hnormalized, hrequests⟩ := ih (Nat.succ.inj hlen) hrest
        obtain ⟨hs, he, hconfig, hexecType, -⟩ := hj
        refine ⟨.cons hs hnormalized, ?_⟩
        rw [List.map_cons, hrequests, requestOf, Job.request, he, hconfig, hexecType]
        rfl

theorem exists_makeJobs_zip_iff (heven : circuits.length = endpoints.length) :
    (∃ jobs, makeJobs config execType 0 (circuits.zip endpoints) = .ok jobs) ↔
      (∀ p ∈ circuits.zip endpoints, Fits p) ∧ (circuits ≠ [] → config.fault? = none) := by
  have hfst : (circuits.zip endpoints).map (·.1) = circuits := List.map_fst_zip (Nat.le_of_eq heven)
  rw [exists_makeJobs_iff]
  constructor
  · intro h
    refine ⟨fun p hp => (h p hp).1, fun hne => ?_⟩
    obtain ⟨s, hs⟩ := List.exists_mem_of_ne_nil _ hne
    rw [← hfst] at hs
    obtain ⟨p, hp, -⟩ := List.mem_map.1 hs
    exact (h p hp).2
  · rintro ⟨hfits, hconfig⟩ p hp
    refine ⟨hfits p hp, hconfig fun hnil => ?_⟩
    rw [hnil, List.zip_nil_left] at hp
    exact List.not_mem_nil hp

theorem isConfigured_of_madeFor {pairs : List (Snapshot × Endpoint)} {jobs : List Job}
    (h : List.Forall₂ (MadeFor config execType) pairs jobs) : ∀ j ∈ jobs, j.isConfigured = true := by
  induction h with
  | nil => exact fun j hj => absurd hj List.not_mem_nil
  | cons hj _ ih => exact List.forall_mem_cons.2 ⟨hj.isConfigured, ih⟩

/-- What is refused leaves the network as it was. -/
theorem submit_of_not_submittable {w : Session (Recorded ω)}
    (h : ¬Submittable circuits endpoints config w.isOpen) :
    ∃ e w', submit circuits endpoints config w = (.error e, w') ∧ w'.network = w.network := by
  unfold submit
  split
  · exact ⟨_, _, rfl, rfl⟩
  · next heven =>
    have heven : circuits.length = endpoints.length := Decidable.not_not.1 heven
    split
    · exact ⟨_, _, rfl, rfl⟩
    · next resolution hresolution =>
      dsimp only
      split
      · exact ⟨_, _, rfl, rfl⟩
      · next jobs hjobs =>
        -- the jobs stand, so what is missing is an open session
        obtain ⟨hfits, hconfig⟩ := (exists_makeJobs_zip_iff heven).1 ⟨jobs, hjobs⟩
        have hmade := madeFor_of_makeJobs hjobs
        have hclosed : circuits ≠ [] ∧ w.isOpen = false := by
          by_contra hsession
          rw [not_and, Bool.not_eq_false] at hsession
          exact h ⟨heven, ⟨resolution, hresolution⟩, hfits, hconfig, hsession⟩
        have hne : jobs ≠ [] := by
          rintro rfl
          have hlen : (circuits.zip endpoints).length = 0 := hmade.length_eq
          rw [List.length_zip, ← heven, Nat.min_self] at hlen
          exact hclosed.1 (List.eq_nil_of_length_eq_zero hlen)
        have hsubmit := submitJobs_of_closed (w := w.note resolution.notices) hclosed.2
          (isConfigured_of_madeFor hmade)
        rw [if_neg hne] at hsubmit
        exact ⟨_, w.note resolution.notices, by rw [hsubmit]; rfl, rfl⟩

/-- What is taken is sent, one request for each circuit. -/
theorem submit_of_submittable {w : Session (Recorded ω)}
    (h : Submittable circuits endpoints config w.isOpen) :
    ∃ b w' jobs, submit circuits endpoints config w = (.ok b, w') ∧
      Resolution.ofBatch .report circuits = .ok b.resolution ∧
      List.Forall₂ (MadeFor config b.resolution.execType) (circuits.zip endpoints) jobs ∧
      w'.network.sent = w.network.sent ++ jobs.map requestOf := by
  obtain ⟨heven, ⟨resolution, hresolution⟩, hfits, hconfig, hsession⟩ := h
  obtain ⟨jobs, hjobs⟩ : ∃ jobs,
      makeJobs config resolution.execType 0 (circuits.zip endpoints) = .ok jobs :=
    (exists_makeJobs_zip_iff heven).2 ⟨hfits, hconfig⟩
  have hmade := madeFor_of_makeJobs hjobs
  have hconfigured := isConfigured_of_madeFor hmade
  obtain ⟨jobs', w', hsubmit, hsent⟩ : ∃ jobs' w',
      submitJobs (w.note resolution.notices) jobs = (.ok jobs', w') ∧
        w'.network.sent = w.network.sent ++ jobs.map requestOf := by
    cases hopen : w.isOpen with
    | true =>
      obtain ⟨⟨jobs', hjobs'⟩, hsent⟩ :=
        submitJobs_of_isOpen (w := w.note resolution.notices) hopen hconfigured
      exact ⟨jobs', _, Prod.ext hjobs' rfl, hsent⟩
    | false =>
      have hnil : circuits = [] := by
        by_contra hne
        rw [hsession hne] at hopen
        cases hopen
      subst hnil
      cases hmade
      exact ⟨[], _, rfl, (List.append_nil _).symm⟩
  refine ⟨⟨jobs', resolution⟩, w', jobs, ?_, hresolution, hmade, hsent⟩
  unfold Resolution.execType at hjobs
  unfold submit
  rw [if_neg (Decidable.not_not.2 heven), hresolution]
  dsimp only
  rw [hjobs]
  dsimp only
  rw [hsubmit]
  rfl

/-! ### All or nothing -/

/-- Something in the batch is a relay. -/
def Relays (batch : List Snapshot) : Prop :=
  ∃ s ∈ batch, ∃ i ∈ s.instructions, i.relay.isSome = true

theorem exists_ofSnapshot_iff {batch : List Snapshot} :
    (∃ s ∈ batch, ExecType.ofSnapshot s = .dynamic) ↔ Relays batch := by
  refine exists_congr fun s => and_congr_right fun _ => ?_
  rw [ExecType.ofSnapshot, ← List.any_eq_true, ← Snapshot.hasRelay]
  split
  · next h => simp [h]
  · next h => simp [h]

theorem execType_eq_dynamic_iff {resolution : Resolution} :
    resolution.execType = .dynamic ↔ resolution.isDistributed = true := by
  unfold Resolution.execType
  split
  · next h => simp [h]
  · next h => simp [h]

theorem valid_of_normalized {normalized : List Snapshot}
    (h : List.Forall₂ (fun s s' => s.normalized = .ok s') circuits normalized) :
    ∀ s ∈ circuits, s.Valid := by
  induction h with
  | nil => exact fun s hs => absurd hs List.not_mem_nil
  | cons hs _ ih => exact List.forall_mem_cons.2 ⟨(Snapshot.normalized_eq_ok hs).1, ih⟩

theorem relays_of_normalized {normalized : List Snapshot}
    (h : List.Forall₂ (fun s s' => s.normalized = .ok s') circuits normalized)
    (hrelays : Relays normalized) : Relays circuits := by
  obtain ⟨s', hs', i, hi, hrelay⟩ := hrelays
  induction h with
  | nil => cases hs'
  | cons hs _ ih =>
    cases hs' with
    | head =>
      rw [← (Snapshot.normalized_eq_ok hs).2] at hi
      exact ⟨_, List.mem_cons_self, i, hi, hrelay⟩
    | tail _ hs' =>
      obtain ⟨s, hs, hrelays⟩ := ih hs'
      exact ⟨s, List.mem_cons_of_mem _ hs, hrelays⟩

/-- A batch is taken exactly if it fits its endpoints, its settings and the session. One that is
refused has sent nothing; one that is taken has sent one request for each circuit, to its endpoint, all
with the way of running that the relays of the batch call for. -/
theorem submit_sends (circuits : List Snapshot) (endpoints : List Endpoint) (config : RunConfig)
    (w : Session (Recorded ω)) :
    ((∃ b, (submit circuits endpoints config w).1 = .ok b) ↔
      Submittable circuits endpoints config w.isOpen) ∧
    match submit circuits endpoints config w with
    | (.error _, w') => w'.network = w.network
    | (.ok b, w') => ∃ normalized execType,
        List.Forall₂ (fun s s' => s.normalized = .ok s') circuits normalized ∧
        normalized.length = endpoints.length ∧
        w'.network.sent = w.network.sent ++ requestsTo endpoints config execType normalized ∧
        (execType = .dynamic ↔ Relays circuits) ∧
        ((∃ s ∈ circuits, ExecType.ofSnapshot s = .dynamic) ↔ Relays circuits) ∧
        (b.resolution.isDistributed = true ↔ Relays circuits) ∧
        (execType = .offloading → ¬Relays normalized) := by
  by_cases h : Submittable circuits endpoints config w.isOpen
  · obtain ⟨b, w', jobs, hsubmit, hresolution, hmade, hsent⟩ := submit_of_submittable h
    obtain ⟨hnormalized, hrequests⟩ := map_requestOf h.even hmade
    have hdistributed : b.resolution.isDistributed = true ↔ Relays circuits :=
      Resolution.isDistributed_iff hresolution (valid_of_normalized hnormalized)
    have hexecType := execType_eq_dynamic_iff.trans hdistributed
    rw [hsubmit]
    refine ⟨iff_of_true ⟨b, rfl⟩ h, jobs.map (·.snapshot), b.resolution.execType, hnormalized,
      hnormalized.length_eq.symm.trans h.even, by rw [hsent, hrequests], hexecType,
      exists_ofSnapshot_iff, hdistributed, fun hoffloading hrelays => ?_⟩
    have hdynamic : b.resolution.execType = .dynamic :=
      hexecType.2 (relays_of_normalized hnormalized hrelays)
    rw [hoffloading] at hdynamic
    cases hdynamic
  · obtain ⟨e, w', hsubmit, hnetwork⟩ := submit_of_not_submittable h
    rw [hsubmit]
    refine ⟨iff_of_false ?_ h, hnetwork⟩
    rintro ⟨b, hb⟩
    cases hb

end QuantumRelay.SubmittedBatch
