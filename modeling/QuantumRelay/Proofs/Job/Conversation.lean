import QuantumRelay.Proofs.Circuit.WellFormed
import QuantumRelay.Proofs.Job.Operation

/-!
# The conversation of a job with its endpoint

A job and what has passed over its network `Stands` in one of three ways: nothing has passed; a message
waits for its answer, after rounds that all gave a result; or the last message has its answer too. The
messages are the request and then parameter vectors that fit. Every call keeps this, whatever the
network does and whatever happens between the calls (`Stands.proceed`), so it holds of the whole
conversation.
-/

namespace QuantumRelay

def Message.vector : Message → List Float
  | .run request => Parameters.collect request.instructions
  | .update u => u.params

namespace Job

variable {ω : Type} {j₀ j : Job}

/-! ### What a job asks for -/

/-- The circuit that a job asks for with a message: its own, or its own with other parameters. -/
def asked (j₀ : Job) : Message → Snapshot
  | .run _ => j₀.snapshot
  | .update u =>
    { j₀.snapshot with instructions := Parameters.assign u.params j₀.snapshot.instructions }

/-- A job as of a message. -/
def asOf (j₀ : Job) (m : Message) : Job := { j₀ with snapshot := j₀.asked m }

def updateOf (j₀ : Job) (values : List Float) : Message := .update ⟨j₀.snapshot.id, values⟩

/-- The messages that a job may send: its request, or parameters that fit. -/
inductive Asks (j₀ : Job) : Message → Prop
  | run : Asks j₀ (.run j₀.request)
  | update {values : List Float} :
      Parameters.Fits j₀.snapshot.instructions values → Asks j₀ (j₀.updateOf values)

namespace Asks

variable {m : Message}

theorem parameters_eq (h : Asks j₀ m) : (j₀.asked m).parameters = m.vector := by
  cases h with
  | run => rfl
  | update hfits => exact Parameters.collect_assign hfits.1

theorem fits_iff (h : Asks j₀ m) {values : List Float} :
    Parameters.Fits (j₀.asked m).instructions values ↔
      Parameters.Fits j₀.snapshot.instructions values := by
  cases h with
  | run => exact Iff.rfl
  | update hfits => exact Parameters.fits_assign hfits.1

theorem fits {values : List Float} (h : Asks j₀ (j₀.updateOf values)) :
    Parameters.Fits j₀.snapshot.instructions values := by
  cases h with
  | update hfits => exact hfits

theorem assign_asked (h : Asks j₀ m) (values : List Float) :
    Parameters.assign values (j₀.asked m).instructions =
      Parameters.assign values j₀.snapshot.instructions := by
  cases h with
  | run => rfl
  | update hfits => exact Parameters.assign_assign hfits.1

theorem withParameters_eq_ok (h : Asks j₀ m) {values : List Float} {s : Snapshot} :
    (j₀.asked m).withParameters values = .ok s ↔
      Parameters.Fits j₀.snapshot.instructions values ∧ s = j₀.asked (j₀.updateOf values) := by
  rw [Snapshot.withParameters_eq_ok, h.fits_iff, h.assign_asked]
  cases h with
  | run => exact Iff.rfl
  | update => exact Iff.rfl

end Asks

theorem asked_id (j₀ : Job) (m : Message) : (j₀.asked m).id = j₀.snapshot.id := by
  cases m with
  | run request => rfl
  | update u => rfl

theorem normalized_asked {id : String} {endpoint : Endpoint} {s : Snapshot} {config : RunConfig}
    {execType : ExecType} (hmade : ofExecType id endpoint s config execType = .ok j₀) {m : Message}
    (h : Asks j₀ m) : (j₀.asked m).normalized = .ok (j₀.asked m) := by
  obtain ⟨snapshot, hsnapshot, -, -, rfl⟩ := ofExecType_eq_ok.1 hmade
  cases h with
  | run => exact Snapshot.normalized_normalized hsnapshot
  | update hfits =>
    exact Snapshot.normalized_withParameters hsnapshot
      (Snapshot.withParameters_eq_ok.2 ⟨hfits, rfl⟩)

/-! ### Rounds -/

/-- A message and what its exchange came to. -/
structure Round where
  message : Message
  ticket : Nat
  delivery : Delivery

namespace Round

def passages (socket : Nat) (r : Round) : List Passage :=
  [.sent socket r.message r.ticket, .received r.ticket r.delivery]

/-- What a job makes of a round. -/
def outcome (j₀ : Job) (r : Round) : Except JobError RunResult := (j₀.asOf r.message).deliver r.delivery

end Round

def passages (j₀ : Job) (rounds : List Round) : List Passage :=
  rounds.flatMap (·.passages j₀.endpoint.socket)

def script (j₀ : Job) (vectors : List (List Float)) : List Message :=
  .run j₀.request :: vectors.map j₀.updateOf

theorem asks_of_mem_script {vectors : List (List Float)}
    (hfits : ∀ values ∈ vectors, Parameters.Fits j₀.snapshot.instructions values) {m : Message}
    (hm : m ∈ j₀.script vectors) : Asks j₀ m := by
  rcases List.mem_cons.1 hm with rfl | hm
  · exact .run
  · obtain ⟨values, hvalues, rfl⟩ := List.mem_map.1 hm
    exact .update (hfits values hvalues)

/-- Rounds that all gave a result, and then one more message. -/
structure Course (j₀ : Job) (rounds : List Round) (m : Message) : Prop where
  messages : ∃ vectors : List (List Float),
    (∀ values ∈ vectors, Parameters.Fits j₀.snapshot.instructions values) ∧
      rounds.map (·.message) ++ [m] = j₀.script vectors
  read : ∀ r ∈ rounds, ∃ result, r.outcome j₀ = .ok result

namespace Course

theorem first (j₀ : Job) : Course j₀ [] (.run j₀.request) :=
  ⟨⟨[], fun _ hv => absurd hv List.not_mem_nil, rfl⟩, fun _ hr => absurd hr List.not_mem_nil⟩

theorem asks {rounds : List Round} {m : Message} (h : Course j₀ rounds m) : Asks j₀ m := by
  obtain ⟨vectors, hfits, hvectors⟩ := h.messages
  exact asks_of_mem_script hfits (hvectors ▸ List.mem_append_right _ List.mem_cons_self)

theorem next {rounds : List Round} {r : Round} (h : Course j₀ rounds r.message)
    {result : RunResult} (hread : r.outcome j₀ = .ok result) {values : List Float}
    (hfits : Parameters.Fits j₀.snapshot.instructions values) :
    Course j₀ (rounds ++ [r]) (j₀.updateOf values) where
  messages := by
    obtain ⟨vectors, hall, hvectors⟩ := h.messages
    refine ⟨vectors ++ [values], fun v hv => ?_, ?_⟩
    · rcases List.mem_append.1 hv with hv | hv
      · exact hall v hv
      · exact List.mem_singleton.1 hv ▸ hfits
    · rw [List.map_append, List.map_singleton, hvectors, script, script, List.map_append,
        List.map_singleton, List.cons_append]
  read r' hr' := by
    rcases List.mem_append.1 hr' with hr' | hr'
    · exact h.read r' hr'
    · exact ⟨result, List.mem_singleton.1 hr' ▸ hread⟩

end Course

/-! ### Where a conversation stands -/

/-- A job whose last message is `m`, after so many rounds. -/
def reached (j₀ : Job) (rounds : List Round) (m : Message) (stage : Stage) (stale : Bool)
    (submittedAt : Option Nat) : Job :=
  { j₀ with
    snapshot := j₀.asked m
    stage, stale, submittedAt
    submissions := UInt32.ofNat (rounds.length + 1) }

/-- A job and what has passed since it was made. -/
inductive Stands (j₀ : Job) : Job → List Passage → Prop
  | fresh : Stands j₀ j₀ []
  | waiting {rounds : List Round} {m : Message} {ticket : Nat} {submittedAt : Option Nat} :
      Course j₀ rounds m →
      Stands j₀ (j₀.reached rounds m (.submitted ticket) (!rounds.isEmpty) submittedAt)
        (j₀.passages rounds ++ [.sent j₀.endpoint.socket m ticket])
  | answered {rounds : List Round} {r : Round} {submittedAt : Option Nat} :
      Course j₀ rounds r.message →
      Stands j₀ (j₀.reached rounds r.message (stageOf (r.outcome j₀)) false submittedAt)
        (j₀.passages (rounds ++ [r]))

theorem passages_append (j₀ : Job) (rounds more : List Round) :
    j₀.passages (rounds ++ more) = j₀.passages rounds ++ j₀.passages more :=
  List.flatMap_append

theorem passages_singleton (j₀ : Job) (r : Round) :
    j₀.passages [r] = r.passages j₀.endpoint.socket := List.append_nil _

theorem first_reached (hnew : New j₀) (stage : Stage) (submittedAt : Option Nat) :
    { j₀ with stage, submittedAt, submissions := 1 } =
      j₀.reached [] (.run j₀.request) stage false submittedAt := by
  rw [← hnew.stale]
  rfl

theorem next_reached {rounds : List Round} {r : Round} {before : Stage} {sentAt : Option Nat}
    (values : List Float) (stage : Stage) (submittedAt : Option Nat) :
    { j₀.reached rounds r.message before false sentAt with
        snapshot := j₀.asked (j₀.updateOf values)
        stage, submittedAt
        stale := true
        submissions := (j₀.reached rounds r.message before false sentAt).submissions + 1 } =
      j₀.reached (rounds ++ [r]) (j₀.updateOf values) stage (!(rounds ++ [r]).isEmpty)
        submittedAt := by
  have hcount : UInt32.ofNat (rounds.length + 1) + 1 = UInt32.ofNat ((rounds ++ [r]).length + 1) := by
    rw [List.length_append, List.length_singleton]
    exact (UInt32.ofNat_add _ 1).symm
  have hstale : (!(rounds ++ [r]).isEmpty) = true := by simp
  unfold reached
  rw [← hcount, hstale]

/-! ### Calls -/

inductive Call where
  | submit
  | result
  | gatherOne
  | upgrade (values : List Float)

/-- What can happen to a job and its session: a call, or anything that others do between calls. -/
inductive Step (ω : Type) where
  | call (c : Call)
  | meanwhile (network : ω) (isOpen : Bool) (now : Nat)

variable [Network ω] {w : Session (Recorded ω)} {p : List Passage}

def proceed (j : Job) (w : Session (Recorded ω)) : Step ω → Job × Session (Recorded ω)
  | .call .submit => (j.submit w).2
  | .call .result => (j.result w).2
  | .call .gatherOne => (j.gatherOne w).2
  | .call (.upgrade values) => (j.upgrade values w).2
  | .meanwhile network isOpen now => (j, { w with network := { w.network with network }, isOpen, now })

def converse (j : Job) (w : Session (Recorded ω)) (steps : List (Step ω)) :
    Job × Session (Recorded ω) :=
  steps.foldl (fun s step => s.1.proceed s.2 step) (j, w)

namespace Stands

theorem settle (h : Stands j₀ j p) (hnew : New j₀) (hp : w.network.record = p) :
    Stands j₀ (j.settle w).1 (j.settle w).2.network.record := by
  cases h with
  | fresh =>
    have hidle : j₀.isInFlight = false := by
      unfold isInFlight
      rw [hnew.stage]
    rw [settle_of_not_isInFlight hidle, hp]
    exact .fresh
  | @waiting rounds m ticket submittedAt hcourse =>
    obtain ⟨hjob, hnetwork, -⟩ := settle_of_submitted (j := j₀.reached rounds m (.submitted ticket)
      (!rounds.isEmpty) submittedAt) rfl w
    have hrecord : (Network.receive w.network ticket).2.record =
        j₀.passages (rounds ++ [⟨m, ticket, (Network.receive w.network ticket).1⟩]) := by
      rw [Recorded.record_receive, hp, passages_append, passages_singleton, List.append_assoc]
      rfl
    rw [hjob, hnetwork, hrecord]
    exact .answered (r := ⟨m, ticket, (Network.receive w.network ticket).1⟩) hcourse
  | @answered rounds r submittedAt hcourse =>
    rw [settle_of_not_isInFlight (kept_of_stageOf rfl).1, hp]
    exact .answered hcourse

theorem submit (h : Stands j₀ j p) (hnew : New j₀) (hp : w.network.record = p) :
    Stands j₀ (j.submit w).2.1 (j.submit w).2.2.network.record := by
  cases hconfigured : j.isConfigured with
  | false =>
    rw [submit_again hconfigured]
    show Stands j₀ j w.network.record
    rwa [hp]
  | true =>
    cases hopen : w.isOpen with
    | false =>
      rw [submit_of_closed hconfigured hopen]
      show Stands j₀ j w.network.record
      rwa [hp]
    | true =>
      rw [submit_of_isOpen hconfigured hopen]
      cases h with
      | fresh =>
        show Stands j₀ _ (w.network.record ++ [.sent j₀.endpoint.socket (.run j₀.request) _])
        rw [hp, first_reached hnew]
        exact .waiting (.first j₀)
      | waiting h =>
        rw [isConfigured_of_ne (by exact nofun)] at hconfigured
        cases hconfigured
      | answered =>
        rw [isConfigured_of_ne (stageOf_ne_configured _)] at hconfigured
        cases hconfigured

theorem upgrade (h : Stands j₀ j p) (hnew : New j₀) (hp : w.network.record = p)
    (values : List Float) :
    Stands j₀ (j.upgrade values w).2.1 (j.upgrade values w).2.2.network.record := by
  have hsettled := h.settle hnew hp
  obtain ⟨e, heq⟩ | ⟨e, -, heq⟩ | ⟨rebound, kept, hconfigured, hrebound, hkept, heq⟩ :=
    upgrade_cases j values w
  · rw [heq]
    show Stands j₀ j w.network.record
    rwa [hp]
  · rw [heq]
    exact hsettled
  · rw [heq]
    obtain ⟨hsnapshot, hstays, hidle⟩ := settle_rest j w
    rw [hconfigured] at hstays
    rw [← hsnapshot] at hrebound
    generalize j.settle w = settled at hsettled hstays hidle hrebound hkept ⊢
    obtain ⟨j', w'⟩ := settled
    dsimp only at hsettled hstays hidle hrebound hkept ⊢
    generalize hp' : w'.network.record = p' at hsettled
    cases hsettled with
    | fresh =>
      rw [hnew.isConfigured] at hstays
      cases hstays
    | waiting => cases hidle
    | @answered rounds r submittedAt hcourse =>
      obtain ⟨hfits, rfl⟩ := hcourse.asks.withParameters_eq_ok.1 hrebound
      obtain ⟨result, hread⟩ : ∃ result, r.outcome j₀ = .ok result := by
        cases hread : r.outcome j₀ with
        | ok result => exact ⟨result, rfl⟩
        | error e =>
          rw [hread] at hkept
          cases hkept
      have hupdate : Message.update ⟨(j₀.asked r.message).id, values⟩ = j₀.updateOf values := by
        rw [asked_id, updateOf]
      show Stands j₀ _ (w'.network.record ++
        [.sent j₀.endpoint.socket (.update ⟨(j₀.asked r.message).id, values⟩) _])
      rw [hp', next_reached, hupdate]
      exact .waiting (hcourse.next hread hfits)

theorem proceed (h : Stands j₀ j p) (hnew : New j₀) (hp : w.network.record = p) (step : Step ω) :
    Stands j₀ (j.proceed w step).1 (j.proceed w step).2.network.record := by
  cases step with
  | call c =>
    cases c with
    | submit => exact h.submit hnew hp
    | result => exact h.settle hnew hp
    | gatherOne =>
      rw [Job.proceed, gatherOne_eq]
      exact h.settle hnew hp
    | upgrade values => exact h.upgrade hnew hp values
  | meanwhile network isOpen now =>
    show Stands j₀ j w.network.record
    rwa [hp]

theorem converse (h : Stands j₀ j w.network.record) (hnew : New j₀) (steps : List (Step ω)) :
    Stands j₀ (j.converse w steps).1 (j.converse w steps).2.network.record := by
  induction steps generalizing j w with
  | nil => exact h
  | cons step rest ih => exact ih (h.proceed hnew rfl step)

end Stands

/-! ### What is sent -/

theorem sent_passages (j₀ : Job) (rounds : List Round) :
    (j₀.passages rounds).filterMap (·.sent?) =
      (rounds.map (·.message)).map (j₀.endpoint.socket, ·) := by
  induction rounds with
  | nil => rfl
  | cons r rest ih =>
    rw [passages, List.flatMap_cons, List.filterMap_append]
    exact congrArg (List.cons _) ih

theorem Stands.last (h : Stands j₀ j p) : (j = j₀ ∧ p = []) ∨
    ∃ rounds m stage stale submittedAt, Course j₀ rounds m ∧
      j = j₀.reached rounds m stage stale submittedAt ∧ stage ≠ .configured ∧
      (stale = true ↔ (∃ ticket, stage = .submitted ticket) ∧ rounds ≠ []) ∧
      p.filterMap (·.sent?) = (rounds.map (·.message) ++ [m]).map (j₀.endpoint.socket, ·) := by
  cases h with
  | fresh => exact .inl ⟨rfl, rfl⟩
  | @waiting rounds m ticket submittedAt hcourse =>
    refine .inr ⟨rounds, m, .submitted ticket, _, submittedAt, hcourse, rfl, nofun, by simp, ?_⟩
    rw [List.filterMap_append, sent_passages, List.map_append]
    rfl
  | @answered rounds r submittedAt hcourse =>
    refine .inr ⟨rounds, r.message, _, _, submittedAt, hcourse, rfl, stageOf_ne_configured _, ?_, ?_⟩
    · cases r.outcome j₀ <;> simp [stageOf]
    · rw [sent_passages, List.map_append, List.map_singleton]

theorem sent_settle (j : Job) (w : Session (Recorded ω)) :
    (j.settle w).2.network.sent = w.network.sent := by
  cases hflight : j.isInFlight with
  | false => rw [settle_of_not_isInFlight hflight]
  | true =>
    unfold isInFlight at hflight
    split at hflight
    · next ticket hstage =>
      rw [(settle_of_submitted hstage w).2.1, Recorded.sent, Recorded.record_receive,
        List.filterMap_append]
      exact List.append_nil _
    · cases hflight

theorem not_isInFlight_of_isConfigured (h : j.isConfigured = true) : j.isInFlight = false := by
  unfold isConfigured at h
  unfold isInFlight
  split at h
  · next hstage => rw [hstage]
  · cases h

/-- A step leaves a job as it is, or waits for its result, or sends one message after a result. -/
theorem proceed_cases (j : Job) (w : Session (Recorded ω)) (step : Step ω) :
    ((j.proceed w step).1 = j ∧ (j.proceed w step).2.network.record = w.network.record) ∨
    ((j.proceed w step).1 = (j.settle w).1 ∧
      (j.proceed w step).2.network.record = (j.settle w).2.network.record) ∨
    (∃ kept, (j.settle w).1.kept = .ok kept) ∧ ∃ socket m ticket,
      (j.proceed w step).2.network.record =
        (j.settle w).2.network.record ++ [.sent socket m ticket] := by
  cases step with
  | call c =>
    cases c with
    | submit =>
      rw [proceed]
      cases hconfigured : j.isConfigured with
      | false =>
        rw [submit_again hconfigured]
        exact .inl ⟨rfl, rfl⟩
      | true =>
        cases hopen : w.isOpen with
        | false =>
          rw [submit_of_closed hconfigured hopen]
          exact .inl ⟨rfl, rfl⟩
        | true =>
          rw [submit_of_isOpen hconfigured hopen,
            settle_of_not_isInFlight (not_isInFlight_of_isConfigured hconfigured)]
          have hkept : j.kept = .ok none := by
            unfold isConfigured at hconfigured
            unfold kept
            split at hconfigured
            · next hstage => rw [hstage]
            · cases hconfigured
          exact .inr (.inr ⟨⟨none, hkept⟩, _, _, _, rfl⟩)
    | result => exact .inr (.inl ⟨rfl, rfl⟩)
    | gatherOne =>
      rw [proceed, gatherOne_eq]
      exact .inr (.inl ⟨rfl, rfl⟩)
    | upgrade values =>
      rw [proceed]
      obtain ⟨e, heq⟩ | ⟨e, -, heq⟩ | ⟨rebound, kept, -, -, hkept, heq⟩ := upgrade_cases j values w
      · rw [heq]
        exact .inl ⟨rfl, rfl⟩
      · rw [heq]
        exact .inr (.inl ⟨rfl, rfl⟩)
      · rw [heq]
        exact .inr (.inr ⟨⟨kept, hkept⟩, _, _, _, rfl⟩)
  | meanwhile network isOpen now => exact .inl ⟨rfl, rfl⟩

theorem length_sent_proceed (j : Job) (w : Session (Recorded ω)) (step : Step ω) :
    w.network.sent.length ≤ (j.proceed w step).2.network.sent.length := by
  obtain ⟨-, hrecord⟩ | ⟨-, hrecord⟩ | ⟨-, socket, m, ticket, hrecord⟩ := proceed_cases j w step
  · exact Nat.le_of_eq (congrArg List.length (Recorded.sent_of_record hrecord).symm)
  · have hsent := (Recorded.sent_of_record hrecord).trans (sent_settle j w)
    exact Nat.le_of_eq (congrArg List.length hsent.symm)
  · rw [Recorded.sent_of_record_append hrecord, sent_settle, List.length_append]
    exact Nat.le_add_right ..

theorem length_sent_converse (j : Job) (w : Session (Recorded ω)) (steps : List (Step ω)) :
    w.network.sent.length ≤ (j.converse w steps).2.network.sent.length := by
  induction steps generalizing j w with
  | nil => exact Nat.le_refl _
  | cons step rest ih => exact Nat.le_trans (length_sent_proceed j w step) (ih ..)

/-- A job that waits for nothing stays as it is until it sends something, which it does only if it
has not failed. -/
theorem proceed_of_idle (h : j.isInFlight = false) (w : Session (Recorded ω)) (step : Step ω) :
    ((j.proceed w step).1 = j ∧ (j.proceed w step).2.network.record = w.network.record) ∨
    (∃ kept, j.kept = .ok kept) ∧
      w.network.sent.length < (j.proceed w step).2.network.sent.length := by
  have hcases := proceed_cases j w step
  rw [settle_of_not_isInFlight h] at hcases
  obtain hsame | hsame | ⟨hkept, socket, m, ticket, hrecord⟩ := hcases
  · exact .inl hsame
  · exact .inl hsame
  · refine .inr ⟨hkept, ?_⟩
    rw [Recorded.sent_of_record_append hrecord, List.length_append]
    exact Nat.lt_succ_self _

theorem converse_of_idle (h : j.isInFlight = false) (w : Session (Recorded ω))
    (steps : List (Step ω)) :
    ((j.converse w steps).1 = j ∧ (j.converse w steps).2.network.record = w.network.record) ∨
    (∃ kept, j.kept = .ok kept) ∧
      w.network.sent.length < (j.converse w steps).2.network.sent.length := by
  induction steps generalizing w with
  | nil => exact .inl ⟨rfl, rfl⟩
  | cons step rest ih =>
    show ((Job.converse (j.proceed w step).1 (j.proceed w step).2 rest).1 = j ∧
        (Job.converse (j.proceed w step).1 (j.proceed w step).2 rest).2.network.record =
          w.network.record) ∨ _ ∧
      _ < (Job.converse (j.proceed w step).1 (j.proceed w step).2 rest).2.network.sent.length
    obtain ⟨hjob, hrecord⟩ | ⟨hkept, hsent⟩ := proceed_of_idle h w step
    · rw [hjob, ← hrecord, ← Recorded.sent_of_record hrecord]
      exact ih _
    · exact .inr ⟨hkept, Nat.lt_of_lt_of_le hsent (length_sent_converse ..)⟩

end Job

end QuantumRelay
