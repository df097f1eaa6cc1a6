import QuantumRelay.Proofs.Job.Orderly

/-!
# What a gathering gives

What a job comes to is told by its stage and, if an exchange is under way, by what that exchange comes to
(`Job.comesTo`). Jobs yield results if each of them comes to one when its turn to be waited for is there
(`Yields`). Gathering gives exactly these results, in the order of the jobs, or the failure of the first
job that comes to none (`gather_of_yields`, `gather_of_fails`, `yields_or_fails`).
-/

namespace QuantumRelay

/-- What the exchange of a ticket comes to if it is waited for now. -/
def Session.answer {ω : Type} [Network ω] (w : Session ω) (ticket : Nat) : Delivery :=
  (Network.receive w.network ticket).1

namespace Job

variable {ω : Type} [Network ω] {j : Job} {w : Session ω}

/-! ### One job -/

def comesTo (answer : Nat → Delivery) (j : Job) : Except JobError RunResult :=
  match j.stage with
  | .configured => .error (.notSubmitted j.id)
  | .submitted ticket => j.deliver (answer ticket)
  | .ready r => .ok r
  | .failed e => .error e

theorem comesTo_settle (j : Job) (w : Session ω) (answer : Nat → Delivery) :
    (j.settle w).1.comesTo answer = j.comesTo w.answer := by
  cases hstage : j.stage with
  | configured | ready | failed =>
    rw [settle_of_not_isInFlight (by rw [isInFlight, hstage]), comesTo, comesTo, hstage]
  | submitted ticket =>
    have hcomes : j.comesTo w.answer = j.deliver (Network.receive w.network ticket).1 := by
      rw [comesTo, hstage]
      rfl
    rw [(settle_of_submitted hstage w).1, hcomes, comesTo]
    cases j.deliver (Network.receive w.network ticket).1 with
    | ok r => rfl
    | error e => rfl

theorem outcome_gatherOne (j : Job) (w : Session ω) :
    j.gatherOne w = (j.comesTo w.answer, j.settle w) := by
  rw [← comesTo_settle j w w.answer]
  obtain ⟨-, -, hidle⟩ := settle_rest j w
  unfold gatherOne result
  generalize j.settle w = settled at hidle ⊢
  obtain ⟨j', w'⟩ := settled
  unfold isInFlight at hidle
  dsimp only at hidle ⊢
  unfold kept comesTo
  cases hstage : j'.stage with
  | submitted ticket =>
    rw [hstage] at hidle
    cases hidle
  | configured => rfl
  | ready => rfl
  | failed => rfl

theorem stage_settle_of_ok {r : RunResult} (h : j.comesTo w.answer = .ok r) :
    (j.settle w).1.stage = .ready r := by
  cases hstage : j.stage with
  | submitted ticket =>
    rw [comesTo, hstage] at h
    have hdeliver : j.deliver (Network.receive w.network ticket).1 = .ok r := h
    rw [(settle_of_submitted hstage w).1, hdeliver]
    rfl
  | configured | failed =>
    rw [comesTo, hstage] at h
    cases h
  | ready r' =>
    rw [comesTo, hstage] at h
    obtain rfl := Except.ok.inj h
    rw [settle_of_not_isInFlight (by rw [isInFlight, hstage]), hstage]

/-- Waiting for a job that comes to no result leaves it with the failure, or as it was if it was never
submitted. -/
theorem settle_of_error {e : JobError} (h : j.comesTo w.answer = .error e) :
    (j.settle w).1.stage = .failed e ∨
      j.stage = .configured ∧ e = .notSubmitted j.id ∧ j.settle w = (j, w) := by
  cases hstage : j.stage with
  | configured =>
    rw [comesTo, hstage] at h
    exact .inr ⟨rfl, (Except.error.inj h).symm,
      settle_of_not_isInFlight (by rw [isInFlight, hstage]) w⟩
  | submitted ticket =>
    rw [comesTo, hstage] at h
    have hdeliver : j.deliver (Network.receive w.network ticket).1 = .error e := h
    left
    rw [(settle_of_submitted hstage w).1, hdeliver]
    rfl
  | ready r =>
    rw [comesTo, hstage] at h
    cases h
  | failed e' =>
    rw [comesTo, hstage] at h
    obtain rfl := Except.error.inj h
    left
    rw [settle_of_not_isInFlight (by rw [isInFlight, hstage]), hstage]

theorem settle_eq_with (j : Job) (w : Session ω) :
    (j.settle w).1 = { j with stage := (j.settle w).1.stage, stale := (j.settle w).1.stale } := by
  cases hstage : j.stage with
  | configured | ready | failed =>
    rw [settle_of_not_isInFlight (by rw [isInFlight, hstage])]
  | submitted ticket =>
    rw [(settle_of_submitted hstage w).1]

/-! ### Jobs in turn -/

def settleAll (w : Session ω) : List Job → List Job × Session ω
  | [] => ([], w)
  | j :: rest =>
    ((j.settle w).1 :: (settleAll (j.settle w).2 rest).1, (settleAll (j.settle w).2 rest).2)

/-- Jobs come to results, each when its turn to be waited for is there. -/
structure Yields (w : Session ω) (jobs : List Job) (results : List RunResult) : Prop where
  length_eq : results.length = jobs.length
  at_turn : ∀ (i : Nat) (j : Job) (r : RunResult), jobs[i]? = some j → results[i]? = some r →
    j.comesTo (settleAll w (jobs.take i)).2.answer = .ok r

/-- Some job comes to no result when its turn is there, and all jobs before it do. -/
structure Fails (w : Session ω) (jobs before : List Job) (j : Job) (after : List Job)
    (e : JobError) : Prop where
  split : jobs = before ++ j :: after
  yields : ∃ results, Yields w before results
  at_turn : j.comesTo (settleAll w before).2.answer = .error e

variable {jobs rest before after : List Job} {results : List RunResult} {r : RunResult} {e : JobError}

theorem yields_nil_iff : Yields w [] results ↔ results = [] :=
  ⟨fun h => List.length_eq_zero_iff.1 h.length_eq,
    fun h => ⟨by rw [h]; rfl, fun i j r hj => by simp at hj⟩⟩

theorem yields_cons : Yields w (j :: rest) (r :: results) ↔
    j.comesTo w.answer = .ok r ∧ Yields (j.settle w).2 rest results := by
  constructor
  · intro h
    exact ⟨h.at_turn 0 j r rfl rfl, Nat.succ.inj h.length_eq, fun i => h.at_turn (i + 1)⟩
  · rintro ⟨hj, hlength, hrest⟩
    refine ⟨congrArg Nat.succ hlength, fun i => ?_⟩
    cases i with
    | zero =>
      intro j' r' hj' hr'
      obtain rfl := Option.some.inj hj'
      obtain rfl := Option.some.inj hr'
      exact hj
    | succ i => exact hrest i

theorem exists_of_yields_cons (h : Yields w (j :: rest) results) :
    ∃ r results', results = r :: results' := by
  cases results with
  | nil => cases h.length_eq
  | cons r results' => exact ⟨r, results', rfl⟩

theorem gather_cons_of_error (h : j.comesTo w.answer = .error e) :
    gather w (j :: rest) = (.error e, (j.settle w).1 :: rest, (j.settle w).2) := by
  rw [gather, outcome_gatherOne, h]

theorem gather_cons_of_ok (h : j.comesTo w.answer = .ok r) :
    gather w (j :: rest) = ((gather (j.settle w).2 rest).1.map (r :: ·),
      (j.settle w).1 :: (gather (j.settle w).2 rest).2.1, (gather (j.settle w).2 rest).2.2) := by
  rw [gather, outcome_gatherOne, h]

theorem yields_or_fails (w : Session ω) (jobs : List Job) :
    (∃ results, Yields w jobs results) ∨ ∃ before j after e, Fails w jobs before j after e := by
  induction jobs generalizing w with
  | nil => exact .inl ⟨[], yields_nil_iff.2 rfl⟩
  | cons j rest ih =>
    cases hj : j.comesTo w.answer with
    | error e => exact .inr ⟨[], j, rest, e, rfl, ⟨[], yields_nil_iff.2 rfl⟩, hj⟩
    | ok r =>
      obtain ⟨results, h⟩ | ⟨before, j', after, e, rfl, ⟨results, h⟩, he⟩ := ih (j.settle w).2
      · exact .inl ⟨r :: results, yields_cons.2 ⟨hj, h⟩⟩
      · exact .inr ⟨j :: before, j', after, e, rfl, ⟨r :: results, yields_cons.2 ⟨hj, h⟩⟩, he⟩

theorem gather_of_yields (h : Yields w jobs results) :
    gather w jobs = (.ok results, settleAll w jobs) := by
  induction jobs generalizing w results with
  | nil =>
    obtain rfl := yields_nil_iff.1 h
    rfl
  | cons j rest ih =>
    obtain ⟨r, results, rfl⟩ := exists_of_yields_cons h
    obtain ⟨hj, hrest⟩ := yields_cons.1 h
    rw [gather_cons_of_ok hj, ih hrest]
    rfl

/-- The first job that comes to no result ends the gathering. -/
theorem gather_of_fails (h : Fails w jobs before j after e) :
    gather w jobs = (.error e,
      (settleAll w before).1 ++ (j.settle (settleAll w before).2).1 :: after,
      (j.settle (settleAll w before).2).2) := by
  obtain ⟨rfl, ⟨results, hyields⟩, he⟩ := h
  induction before generalizing w results with
  | nil => exact gather_cons_of_error he
  | cons first before ih =>
    obtain ⟨r, results, rfl⟩ := exists_of_yields_cons hyields
    obtain ⟨hfirst, hbefore⟩ := yields_cons.1 hyields
    rw [List.cons_append, gather_cons_of_ok hfirst, ih he results hbefore]
    rfl

theorem stages_of_yields (h : Yields w jobs results) :
    (settleAll w jobs).1.map (·.stage) = results.map .ready := by
  induction jobs generalizing w results with
  | nil =>
    obtain rfl := yields_nil_iff.1 h
    rfl
  | cons j rest ih =>
    obtain ⟨r, results, rfl⟩ := exists_of_yields_cons h
    obtain ⟨hj, hrest⟩ := yields_cons.1 h
    rw [settleAll, List.map_cons, List.map_cons, ih hrest, stage_settle_of_ok hj]

/-- Jobs that have been waited for are gathered again as before, and nothing is waited for. -/
theorem gather_again (w w' : Session ω) (jobs : List Job) :
    gather w' (gather w jobs).2.1 = ((gather w jobs).1, (gather w jobs).2.1, w') := by
  induction jobs generalizing w with
  | nil => rfl
  | cons j rest ih =>
    have hagain := comesTo_settle j w w'.answer
    have hidle := settle_of_not_isInFlight (settle_rest j w).2.2 w'
    cases hj : j.comesTo w.answer with
    | error e =>
      rw [hj] at hagain
      rw [gather_cons_of_error hj]
      dsimp only
      rw [gather_cons_of_error hagain, hidle]
    | ok r =>
      rw [hj] at hagain
      rw [gather_cons_of_ok hj]
      dsimp only
      rw [gather_cons_of_ok hagain, hidle, ih]

/-! ### Whatever the order -/

/-- Every exchange comes to what `answer` says, whichever exchanges are waited for before it. -/
def Settles (answer : Nat → Delivery) (w : Session ω) : Prop :=
  ∀ (tickets : List Nat) (ticket : Nat),
    (Network.receive (tickets.foldl (fun n t => (Network.receive n t).2) w.network) ticket).1 =
      answer ticket

theorem Settles.answer_eq {answer : Nat → Delivery} (h : Settles answer w) : w.answer = answer :=
  funext (h [])

theorem Settles.settle {answer : Nat → Delivery} (h : Settles answer w) (j : Job) :
    Settles answer (j.settle w).2 := by
  cases hstage : j.stage with
  | configured | ready | failed =>
    rwa [settle_of_not_isInFlight (by rw [isInFlight, hstage])]
  | submitted ticket =>
    intro tickets ticket'
    rw [(settle_of_submitted hstage w).2.1]
    exact h (ticket :: tickets) ticket'

theorem gather_eq_mapM {answer : Nat → Delivery} (h : Settles answer w) (jobs : List Job) :
    (gather w jobs).1 = jobs.mapM (comesTo answer) := by
  induction jobs generalizing w with
  | nil => rfl
  | cons j rest ih =>
    have hj := h.answer_eq
    rw [List.mapM_cons]
    cases hcomes : j.comesTo w.answer with
    | error e =>
      rw [gather_cons_of_error hcomes, ← hj, hcomes]
      rfl
    | ok r =>
      rw [gather_cons_of_ok hcomes, ih (h.settle j), ← hj, hcomes]
      cases rest.mapM (comesTo w.answer) with
      | error e => rfl
      | ok results => rfl

/-! ### Gathering -/

theorem gather_rest (w : Session ω) (jobs : List Job) :
    List.Forall₂ (fun j j' => j' = { j with stage := j'.stage, stale := j'.stale }) jobs
      (gather w jobs).2.1 := by
  induction jobs generalizing w with
  | nil => exact .nil
  | cons j rest ih =>
    cases hj : j.comesTo w.answer with
    | error e =>
      rw [gather_cons_of_error hj]
      exact .cons (settle_eq_with j w) (List.forall₂_same.2 fun _ _ => rfl)
    | ok r =>
      rw [gather_cons_of_ok hj]
      exact .cons (settle_eq_with j w) (ih _)

theorem sent_gather (w : Session (Recorded ω)) (jobs : List Job) :
    (gather w jobs).2.2.network.sent = w.network.sent := by
  induction jobs generalizing w with
  | nil => rfl
  | cons j rest ih =>
    cases hj : j.comesTo w.answer with
    | error e =>
      rw [gather_cons_of_error hj]
      exact sent_settle j w
    | ok r =>
      rw [gather_cons_of_ok hj]
      exact (ih _).trans (sent_settle j w)

/-- What a gathering keeps to. -/
structure Gathers (w : Session (Recorded ω)) (jobs : List Job) : Prop where
  /-- It gives results exactly if every job was submitted and comes to one, and then these, each in the
  place of its job. -/
  ok_iff : ∀ results, (gather w jobs).1 = .ok results ↔ Yields w jobs results
  /-- It gives a failure exactly if that is what the first job without a result comes to. -/
  error_iff : ∀ e, (gather w jobs).1 = .error e ↔ ∃ before j after, Fails w jobs before j after e
  /-- Nothing hangs on the order in which exchanges end, if they come to the same in every order. -/
  ordered : ∀ answer, Settles answer w → (gather w jobs).1 = jobs.mapM (comesTo answer)
  /-- Jobs that came to results keep them. -/
  kept : ∀ results, Yields w jobs results → (gather w jobs).2.1.map (·.stage) = results.map .ready
  /-- So do the jobs before the first one without a result. That one keeps its failure, unless it was
  never submitted, and the jobs after it are as they were. -/
  left : ∀ before j after e, Fails w jobs before j after e →
    ∃ results settled j', Yields w before results ∧ (gather w jobs).2.1 = settled ++ j' :: after ∧
      settled.map (·.stage) = results.map .ready ∧
      (j'.stage = .failed e ∨ j.stage = .configured ∧ e = .notSubmitted j.id ∧ j' = j)
  rest : List.Forall₂ (fun j j' => j' = { j with stage := j'.stage, stale := j'.stale }) jobs
    (gather w jobs).2.1
  sent : (gather w jobs).2.2.network.sent = w.network.sent
  /-- Gathering again, in whatever session, gives the same and changes nothing. -/
  again : ∀ w' : Session (Recorded ω),
    gather w' (gather w jobs).2.1 = ((gather w jobs).1, (gather w jobs).2.1, w')

/-- Every gathering keeps to it, whatever state its jobs are in and over every network. -/
theorem gather_keeps (w : Session (Recorded ω)) (jobs : List Job) : Gathers w jobs where
  ok_iff results := by
    constructor
    · intro h
      obtain ⟨results', hyields⟩ | ⟨before, j, after, e, hfails⟩ := yields_or_fails w jobs
      · rw [gather_of_yields hyields] at h
        exact Except.ok.inj h ▸ hyields
      · rw [gather_of_fails hfails] at h
        cases h
    · intro h
      rw [gather_of_yields h]
  error_iff e := by
    constructor
    · intro h
      obtain ⟨results, hyields⟩ | ⟨before, j, after, e', hfails⟩ := yields_or_fails w jobs
      · rw [gather_of_yields hyields] at h
        cases h
      · rw [gather_of_fails hfails] at h
        exact ⟨before, j, after, Except.error.inj h ▸ hfails⟩
    · rintro ⟨before, j, after, hfails⟩
      rw [gather_of_fails hfails]
  ordered _ h := gather_eq_mapM h jobs
  kept results h := by
    rw [gather_of_yields h]
    exact stages_of_yields h
  left before j after e h := by
    obtain ⟨results, hyields⟩ := h.yields
    refine ⟨results, (settleAll w before).1, (j.settle (settleAll w before).2).1, hyields, ?_,
      stages_of_yields hyields, ?_⟩
    · rw [gather_of_fails h]
    · obtain hfailed | ⟨hstage, rfl, hsame⟩ := settle_of_error h.at_turn
      · exact .inl hfailed
      · exact .inr ⟨hstage, rfl, by rw [hsame]⟩
  rest := gather_rest w jobs
  sent := sent_gather w jobs
  again w' := gather_again w w' jobs

/-! ### A gathering -/

/-- The results are in the order of the jobs, though the exchange of the second one ended first. A job
that was never submitted ends the gathering, and the one after it is still in flight. -/
theorem gather_probes :
    let w : Session (Recorded Ended) := { network := ⟨{ deliveries := [allZero 3, allZero 5] }, []⟩ }
    let first : Job := { probe with stage := .submitted 1 }
    let second : Job := { probe with stage := .submitted 0 }
    Gathers w [first, second] ∧ Gathers w [first, probe, second] ∧
    (gather w [first, second]).1.map (·.map (·.shots)) = .ok [.ok 5, .ok 3] ∧
    (gather w [first, probe, second]).1 = .error (.notSubmitted "#0") ∧
    (gather w [first, probe, second]).2.1.map (·.isInFlight) = [false, false, true] :=
  ⟨gather_keeps .., gather_keeps .., rfl, rfl, rfl⟩

end Job

end QuantumRelay
