import QuantumRelay.Proofs.Cluster.Event
import QuantumRelay.Proofs.Cluster.Operation
import QuantumRelay.Proofs.Cluster.Reach
import Mathlib.Data.List.Perm.Basic

/-!
# Where every ticket is

`Sound c n` says of a cluster that has given out the tickets below `n` where each of them is: parked
with a timer and no answer, taken out into one run, answered, and answered once, or its timer has expired
and it is about to be given up. A timer that is set belongs to a request that is parked under its circuit
or has been taken out, and has no answer; one that has expired has no answer either, but its request may
be anywhere, or its run over.

Every operation keeps this: one lemma for each way in which tickets move. `Sound.next` puts them
together for events, and `sound_after` says it of every state that a fresh cluster reaches.
-/

namespace QuantumRelay.Cluster

/-- The tickets below `n` are parked, running, answered or about to be given up, and timers are set for
those that wait. -/
structure Sound (c : Cluster) (n : Nat) : Prop where
  parked_id : ∀ {id p}, c.parked.find? id = some p → p.request.id = id
  parked_inj : ∀ {id id' p p'}, c.parked.find? id = some p → c.parked.find? id' = some p' →
    p.ticket = p'.ticket → id = id'
  parked_lt : ∀ {id p}, c.parked.find? id = some p → p.ticket < n
  parked_open : ∀ {id p}, c.parked.find? id = some p → c.answer? p.ticket = none
  parked_timer : ∀ {id p}, c.parked.find? id = some p →
    ∃ t ∈ c.timers ++ c.expired, t.ticket = p.ticket ∧ t.circuit = id
  parked_apart : ∀ {id p}, c.parked.find? id = some p →
    ∀ q ∈ c.running.flatten, q.ticket ≠ p.ticket
  running_lt : ∀ p ∈ c.running.flatten, p.ticket < n
  running_nodup : (c.running.flatten.map (·.ticket)).Nodup
  timer_open : ∀ t ∈ c.timers, c.answer? t.ticket = none
  timer_waits : ∀ t ∈ c.timers,
    (∃ p, c.parked.find? t.circuit = some p ∧ p.ticket = t.ticket) ∨
      ∃ p ∈ c.running.flatten, p.ticket = t.ticket ∧ p.request.id = t.circuit
  timer_apart : ∀ t ∈ c.timers, c.hasExpired t.ticket = false
  expired_lt : ∀ t ∈ c.expired, t.ticket < n
  expired_open : ∀ t ∈ c.expired, c.answer? t.ticket = none
  expired_parked : ∀ t ∈ c.expired, ∀ {id p}, c.parked.find? id = some p → p.ticket = t.ticket →
    id = t.circuit
  answer_lt : ∀ {ticket r}, c.answer? ticket = some r → ticket < n
  answers_nodup : (c.answers.map (·.1)).Nodup
  accounted : ∀ ticket < n, (c.answer? ticket).isSome = true ∨
    (∃ id p, c.parked.find? id = some p ∧ p.ticket = ticket) ∨
      (∃ p ∈ c.running.flatten, p.ticket = ticket) ∨ c.hasExpired ticket = true

namespace Sound

variable {c : Cluster} {n : Nat}

theorem congr {c' : Cluster} (h : Sound c n) (hparked : c'.parked = c.parked)
    (htimers : c'.timers = c.timers) (hexpired : c'.expired = c.expired)
    (hrunning : c'.running = c.running) (hanswers : c'.answers = c.answers) : Sound c' n := by
  obtain ⟨_, _, _, _, _, parked, _, timers, expired, running, answers⟩ := c
  obtain ⟨_, _, _, _, _, parked', _, timers', expired', running', answers'⟩ := c'
  obtain rfl : parked' = parked := hparked
  obtain rfl : timers' = timers := htimers
  obtain rfl : expired' = expired := hexpired
  obtain rfl : running' = running := hrunning
  obtain rfl : answers' = answers := hanswers
  obtain ⟨h1, h2, h3, h4, h5, h6, h7, h8, h9, h10, h11, h12, h13, h14, h15, h16, h17⟩ := h
  exact ⟨h1, h2, h3, h4, h5, h6, h7, h8, h9, h10, h11, h12, h13, h14, h15, h16, h17⟩

theorem timer_lt (h : Sound c n) {t : ParkTimer} (ht : t ∈ c.timers) : t.ticket < n := by
  rcases h.timer_waits t ht with ⟨p, hp, heq⟩ | ⟨p, hp, heq, -⟩
  · exact heq ▸ h.parked_lt hp
  · exact heq ▸ h.running_lt p hp

/-! ### Answers -/

/-- A ticket, or the next one, is answered: it is no longer parked nor about to be given up. -/
theorem settle (h : Sound c n) {ticket m : Nat} (hm : ∀ other, other < m ↔ other < n ∨ other = ticket)
    {parked : KeyMap Parked}
    (hfind : ∀ {id p}, parked.find? id = some p ↔ c.parked.find? id = some p ∧ p.ticket ≠ ticket)
    (r : Response) :
    Sound ({ c with parked, expired := c.expired.filter (·.ticket ≠ ticket) }.reply ticket r) m := by
  generalize hc' : { c with parked, expired := c.expired.filter (·.ticket ≠ ticket) } = c'
  have hexpired (other : Nat) : c'.hasExpired other = (other ≠ ticket && c.hasExpired other) :=
    hc' ▸ hasExpired_filter c ticket other
  have hself : c'.hasExpired ticket = false := by simp [hexpired]
  have hle {other : Nat} (hlt : other < n) : other < m := (hm other).2 (.inl hlt)
  have hother {other : Nat} (hne : other ≠ ticket) :
      (c'.reply ticket r).answer? other = c.answer? other := by
    rw [answer?_reply_of_ne r hne, ← hc', answer?, answer?]
  have hanswered : ((c'.reply ticket r).answer? ticket).isSome = true := by
    simp [answer?_reply, hself]
  have hnodup := c'.reply_answers_nodup ticket r (by rw [← hc']; exact h.answers_nodup)
  rw [reply_of_unexpired r hself] at hother hanswered hnodup ⊢
  subst hc'
  have htimer {t : ParkTimer} :
      t ∈ c.timers.filter (·.ticket ≠ ticket) ↔ t ∈ c.timers ∧ t.ticket ≠ ticket := by
    simp
  have hlate {t : ParkTimer} :
      t ∈ c.expired.filter (·.ticket ≠ ticket) ↔ t ∈ c.expired ∧ t.ticket ≠ ticket := by
    simp
  exact { h with
    parked_id := fun hp => h.parked_id (hfind.1 hp).1
    parked_inj := fun hp hp' => h.parked_inj (hfind.1 hp).1 (hfind.1 hp').1
    parked_lt := fun hp => hle (h.parked_lt (hfind.1 hp).1)
    running_lt := fun p hp => hle (h.running_lt p hp)
    parked_open := fun hp => (hother (hfind.1 hp).2).trans (h.parked_open (hfind.1 hp).1)
    parked_timer := fun {id p} hp => by
      obtain ⟨hp, hne⟩ := hfind.1 hp
      obtain ⟨t, ht, hticket, hcircuit⟩ := h.parked_timer hp
      refine ⟨t, List.mem_append.2 ((List.mem_append.1 ht).imp (fun ht => ?_) fun ht => ?_), hticket,
        hcircuit⟩
      · exact htimer.2 ⟨ht, hticket ▸ hne⟩
      · exact hlate.2 ⟨ht, hticket ▸ hne⟩
    parked_apart := fun hp => h.parked_apart (hfind.1 hp).1
    timer_open := fun t ht => (hother (htimer.1 ht).2).trans (h.timer_open t (htimer.1 ht).1)
    timer_waits := fun t ht => by
      obtain ⟨ht, hne⟩ := htimer.1 ht
      refine (h.timer_waits t ht).imp_left ?_
      rintro ⟨p, hp, heq⟩
      exact ⟨p, hfind.2 ⟨hp, heq ▸ hne⟩, heq⟩
    timer_apart := fun t ht =>
      (hexpired t.ticket).trans (by rw [h.timer_apart t (htimer.1 ht).1, Bool.and_false])
    expired_lt := fun t ht => hle (h.expired_lt t (hlate.1 ht).1)
    expired_open := fun t ht => (hother (hlate.1 ht).2).trans (h.expired_open t (hlate.1 ht).1)
    expired_parked := fun t ht _ _ hp => h.expired_parked t (hlate.1 ht).1 (hfind.1 hp).1
    answer_lt := fun {other _} hanswer => by
      refine (hm other).2 (or_iff_not_imp_right.2 fun heq => ?_)
      exact h.answer_lt ((hother heq).symm.trans hanswer)
    answers_nodup := hnodup
    accounted := fun other hlt => by
      by_cases heq : other = ticket
      · exact .inl (heq ▸ hanswered)
      have hlt := ((hm other).1 hlt).resolve_right heq
      rcases h.accounted other hlt with hanswer | ⟨id, p, hp, rfl⟩ | hrunning | hlate
      · exact .inl ((congrArg Option.isSome (hother heq)).trans hanswer)
      · exact .inr (.inl ⟨id, p, hfind.2 ⟨hp, heq⟩, rfl⟩)
      · exact .inr (.inr (.inl hrunning))
      · exact .inr (.inr (.inr
          ((hexpired other).trans (by rw [hlate, decide_eq_true heq, Bool.and_self])))) }

theorem lt_iff_of_lt {ticket : Nat} (hlt : ticket < n) (other : Nat) :
    other < n ↔ other < n ∨ other = ticket :=
  ⟨.inl, Or.rec id (· ▸ hlt)⟩

theorem filter_expired {ticket : Nat} (h : c.hasExpired ticket = false) :
    c.expired.filter (·.ticket ≠ ticket) = c.expired :=
  List.filter_eq_self.2 fun t ht => decide_eq_true fun heq =>
    absurd ((c.hasExpired_iff ticket).2 ⟨t, ht, heq⟩) (by rw [h]; exact Bool.false_ne_true)

theorem reply (h : Sound c n) {ticket : Nat} (hlt : ticket < n)
    (hparked : ∀ {id p}, c.parked.find? id = some p → p.ticket ≠ ticket) (r : Response) :
    Sound (c.reply ticket r) n := by
  cases hexpired : c.hasExpired ticket with
  | true => rwa [reply_of_expired r hexpired]
  | false =>
    have hsettled := h.settle (lt_iff_of_lt hlt) ⟨fun hp => ⟨hp, hparked hp⟩, And.left⟩ r
    rwa [filter_expired hexpired] at hsettled

theorem find?_erase_of_parked (h : Sound c n) {id : String} {old : Parked}
    (hold : c.parked.find? id = some old) {id' : String} {p : Parked} :
    (c.parked.erase id).find? id' = some p ↔ c.parked.find? id' = some p ∧ p.ticket ≠ old.ticket := by
  rw [KeyMap.find?_erase]
  split
  · next heq =>
    subst heq
    refine ⟨fun hp => (nomatch hp), fun ⟨hp, hne⟩ => ?_⟩
    obtain rfl := Option.some.inj (hold.symm.trans hp)
    exact absurd rfl hne
  · next hne =>
    exact ⟨fun hp => ⟨hp, fun heq => hne (h.parked_inj hp hold heq)⟩, And.left⟩

theorem abandon (h : Sound c n) {id : String} {old : Parked} (hold : c.parked.find? id = some old)
    (hexpired : c.hasExpired old.ticket = true) :
    Sound { c with parked := c.parked.erase id } n := by
  have hfind {id' : String} {p : Parked} : (c.parked.erase id).find? id' = some p ↔
      c.parked.find? id' = some p ∧ p.ticket ≠ old.ticket := h.find?_erase_of_parked hold
  exact { h with
    parked_id := fun hp => h.parked_id (hfind.1 hp).1
    parked_inj := fun hp hp' => h.parked_inj (hfind.1 hp).1 (hfind.1 hp').1
    parked_lt := fun hp => h.parked_lt (hfind.1 hp).1
    parked_open := fun hp => h.parked_open (hfind.1 hp).1
    parked_timer := fun hp => h.parked_timer (hfind.1 hp).1
    parked_apart := fun hp => h.parked_apart (hfind.1 hp).1
    timer_waits := fun t ht => (h.timer_waits t ht).imp_left fun ⟨p, hp, heq⟩ => by
      refine ⟨p, hfind.2 ⟨hp, fun hticket => ?_⟩, heq⟩
      have := h.timer_apart t ht
      rw [← heq, hticket, hexpired] at this
      cases this
    expired_parked := fun t ht _ _ hp => h.expired_parked t ht (hfind.1 hp).1
    accounted := fun ticket hticket => by
      by_cases heq : ticket = old.ticket
      · exact .inr (.inr (.inr (heq ▸ hexpired)))
      · refine (h.accounted ticket hticket).imp_right (.imp_left fun ⟨id', p, hp, hpt⟩ => ?_)
        exact ⟨id', p, hfind.2 ⟨hp, fun hold => heq (hpt.symm.trans hold)⟩, hpt⟩ }

theorem evict (h : Sound c n) (circuit : String) : Sound (c.evict circuit) n := by
  cases hold : c.parked.find? circuit with
  | none => rwa [evict_of_none hold]
  | some old =>
    rw [evict_of_some hold]
    cases hexpired : c.hasExpired old.ticket with
    | true =>
      rw [replyError, reply_of_expired _ (by exact hexpired)]
      exact h.abandon hold hexpired
    | false =>
      have hsettled := h.settle (lt_iff_of_lt (h.parked_lt hold)) (h.find?_erase_of_parked hold)
      rw [filter_expired hexpired] at hsettled
      exact hsettled _

/-! ### Arrivals -/

theorem fresh_ticket (h : Sound c n) : c.answer? n = none ∧
    (∀ {id p}, c.parked.find? id = some p → p.ticket ≠ n) ∧ (∀ p ∈ c.running.flatten, p.ticket ≠ n) ∧
      c.hasExpired n = false := by
  refine ⟨?_, fun hp => Nat.ne_of_lt (h.parked_lt hp), fun p hp => Nat.ne_of_lt (h.running_lt p hp),
    Bool.eq_false_iff.2 fun hexpired => ?_⟩
  · cases hanswer : c.answer? n with
    | none => rfl
    | some r => exact absurd (h.answer_lt hanswer) (Nat.lt_irrefl n)
  · obtain ⟨t, ht, heq⟩ := (c.hasExpired_iff n).1 hexpired
    exact absurd (h.expired_lt t ht) (by rw [heq]; exact Nat.lt_irrefl n)

theorem wait (h : Sound c n) {r : RunRequest} (hfree : c.parked.find? r.id = none) (deadline : Nat) :
    Sound { c with
      parked := c.parked.insert r.id ⟨n, r⟩
      timers := c.timers ++ [⟨n, r.id, deadline⟩] } (n + 1) := by
  obtain ⟨hopen, hparked, hrunning, hunexpired⟩ := h.fresh_ticket
  have hfind {id p} (hp : (c.parked.insert r.id ⟨n, r⟩).find? id = some p) :
      (id = r.id ∧ p = ⟨n, r⟩) ∨ (id ≠ r.id ∧ c.parked.find? id = some p) := by
    rw [KeyMap.find?_insert] at hp
    split at hp
    · next heq => exact .inl ⟨heq, (Option.some.inj hp).symm⟩
    · next hne => exact .inr ⟨hne, hp⟩
  have hkept {id p} (hp : c.parked.find? id = some p) :
      (c.parked.insert r.id ⟨n, r⟩).find? id = some p := by
    rw [KeyMap.find?_insert, if_neg, hp]
    rintro rfl
    rw [hfree] at hp
    cases hp
  exact {
    parked_id := fun hp => by
      rcases hfind hp with ⟨rfl, rfl⟩ | ⟨-, hp⟩
      · rfl
      · exact h.parked_id hp
    parked_inj := fun hp hp' heq => by
      rcases hfind hp with ⟨rfl, rfl⟩ | ⟨-, hp⟩ <;> rcases hfind hp' with ⟨rfl, rfl⟩ | ⟨-, hp'⟩
      · rfl
      · exact absurd heq.symm (hparked hp')
      · exact absurd heq (hparked hp)
      · exact h.parked_inj hp hp' heq
    parked_lt := fun hp => by
      rcases hfind hp with ⟨rfl, rfl⟩ | ⟨-, hp⟩
      · exact Nat.lt_succ_self n
      · exact Nat.lt_succ_of_lt (h.parked_lt hp)
    parked_open := fun hp => by
      rcases hfind hp with ⟨rfl, rfl⟩ | ⟨-, hp⟩
      · exact hopen
      · exact h.parked_open hp
    parked_timer := fun hp => by
      rcases hfind hp with ⟨rfl, rfl⟩ | ⟨-, hp⟩
      · exact ⟨_, List.mem_append_left _ (List.mem_append_right _ List.mem_cons_self), rfl, rfl⟩
      · obtain ⟨t, ht, hticket⟩ := h.parked_timer hp
        refine ⟨t, ?_, hticket⟩
        exact List.mem_append.2 ((List.mem_append.1 ht).imp_left (List.mem_append_left _))
    parked_apart := fun hp => by
      rcases hfind hp with ⟨rfl, rfl⟩ | ⟨-, hp⟩
      · exact hrunning
      · exact h.parked_apart hp
    running_lt := fun p hp => Nat.lt_succ_of_lt (h.running_lt p hp)
    running_nodup := h.running_nodup
    timer_open := fun t ht => by
      rcases List.mem_append.1 ht with ht | ht
      · exact h.timer_open t ht
      · obtain rfl := List.mem_singleton.1 ht
        exact hopen
    timer_waits := fun t ht => by
      rcases List.mem_append.1 ht with ht | ht
      · exact (h.timer_waits t ht).imp_left fun ⟨p, hp, heq⟩ => ⟨p, hkept hp, heq⟩
      · obtain rfl := List.mem_singleton.1 ht
        exact .inl ⟨⟨n, r⟩, KeyMap.find?_insert_self .., rfl⟩
    timer_apart := fun t ht => by
      rcases List.mem_append.1 ht with ht | ht
      · exact h.timer_apart t ht
      · obtain rfl := List.mem_singleton.1 ht
        exact hunexpired
    expired_lt := fun t ht => Nat.lt_succ_of_lt (h.expired_lt t ht)
    expired_open := h.expired_open
    expired_parked := fun t ht _ _ hp heq => by
      rcases hfind hp with ⟨-, rfl⟩ | ⟨-, hp⟩
      · exact absurd heq.symm (Nat.ne_of_lt (h.expired_lt t ht))
      · exact h.expired_parked t ht hp heq
    answer_lt := fun hanswer => Nat.lt_succ_of_lt (h.answer_lt hanswer)
    answers_nodup := h.answers_nodup
    accounted := fun ticket hticket => by
      rcases Nat.lt_succ_iff_lt_or_eq.1 hticket with hlt | rfl
      · refine (h.accounted ticket hlt).imp_right (.imp_left fun ⟨id, p, hp, heq⟩ => ?_)
        exact ⟨id, p, hkept hp, heq⟩
      · exact .inr (.inl ⟨r.id, ⟨ticket, r⟩, KeyMap.find?_insert_self .., rfl⟩) }

theorem start (h : Sound c n) {group : List String} (hgroup : group.Nodup) :
    Sound (c.start group) n := by
  have hleft {id p} (hp : (c.start group).parked.find? id = some p) :
      id ∉ group ∧ c.parked.find? id = some p := by
    rw [find?_start] at hp
    split at hp
    · cases hp
    · next hid => exact ⟨hid, hp⟩
  have hflat : (c.start group).running.flatten =
      c.running.flatten ++ group.filterMap c.parked.find? := by
    simp [Cluster.start]
  -- What is parked stays so, or is taken out.
  have hmoved {id p} (hp : c.parked.find? id = some p) :
      (c.start group).parked.find? id = some p ∨
        p ∈ c.running.flatten ++ group.filterMap c.parked.find? := by
    by_cases hid : id ∈ group
    · exact .inr (List.mem_append_right _ (List.mem_filterMap.2 ⟨id, hid, hp⟩))
    · exact .inl (by rw [find?_start, if_neg hid, hp])
  exact {
    parked_id := fun hp => h.parked_id (hleft hp).2
    parked_inj := fun hp hp' => h.parked_inj (hleft hp).2 (hleft hp').2
    parked_lt := fun hp => h.parked_lt (hleft hp).2
    parked_open := fun hp => h.parked_open (hleft hp).2
    parked_timer := fun hp => h.parked_timer (hleft hp).2
    parked_apart := fun {id p} hp q hq heq => by
      rw [hflat] at hq
      obtain ⟨hid, hp⟩ := hleft hp
      rcases List.mem_append.1 hq with hq | hq
      · exact h.parked_apart hp q hq heq
      · obtain ⟨id', hid', hq⟩ := List.mem_filterMap.1 hq
        exact hid (h.parked_inj hq hp heq ▸ hid')
    running_lt := fun p hp => by
      rw [hflat] at hp
      rcases List.mem_append.1 hp with hp | hp
      · exact h.running_lt p hp
      · obtain ⟨id, -, hp⟩ := List.mem_filterMap.1 hp
        exact h.parked_lt hp
    running_nodup := by
      rw [hflat, List.map_append, List.nodup_append]
      refine ⟨h.running_nodup, ?_, fun a ha b hb hab => ?_⟩
      · rw [List.map_filterMap]
        refine hgroup.filterMap fun id id' ticket hid hid' => ?_
        obtain ⟨p, hp, rfl⟩ := Option.map_eq_some_iff.1 hid
        obtain ⟨p', hp', heq⟩ := Option.map_eq_some_iff.1 hid'
        exact h.parked_inj hp hp' heq.symm
      · obtain ⟨p, hp, rfl⟩ := List.mem_map.1 ha
        obtain ⟨q, hq, rfl⟩ := List.mem_map.1 hb
        obtain ⟨id, -, hq⟩ := List.mem_filterMap.1 hq
        exact h.parked_apart hq p hp hab
    timer_open := h.timer_open
    timer_waits := fun t ht => by
      rw [hflat]
      rcases h.timer_waits t ht with ⟨p, hp, heq⟩ | ⟨p, hp, heq⟩
      · exact (hmoved hp).imp (fun hp => ⟨p, hp, heq⟩) fun hmem => ⟨p, hmem, heq, h.parked_id hp⟩
      · exact .inr ⟨p, List.mem_append_left _ hp, heq⟩
    timer_apart := h.timer_apart
    expired_lt := h.expired_lt
    expired_open := h.expired_open
    expired_parked := fun t ht _ _ hp => h.expired_parked t ht (hleft hp).2
    answer_lt := h.answer_lt
    answers_nodup := h.answers_nodup
    accounted := fun ticket hticket => by
      rw [hflat]
      rcases h.accounted ticket hticket with hanswer | ⟨id, p, hp, heq⟩ | ⟨p, hp, heq⟩ | hexpired
      · exact .inl hanswer
      · exact .inr ((hmoved hp).imp (fun hp => ⟨id, p, hp, heq⟩) fun hmem => .inl ⟨p, hmem, heq⟩)
      · exact .inr (.inr (.inl ⟨p, List.mem_append_left _ hp, heq⟩))
      · exact .inr (.inr (.inr hexpired)) }

theorem disarm {t : ParkTimer} (h : Sound { c with timers := c.timers ++ [t] } n)
    (hparked : ∀ {id p}, c.parked.find? id = some p → p.ticket ≠ t.ticket) : Sound c n :=
  { h with
    parked_timer := fun hp => by
      obtain ⟨t', ht, hticket, hcircuit⟩ := h.parked_timer hp
      refine ⟨t', List.mem_append.2 ((List.mem_append.1 ht).imp_left fun ht => ?_), hticket, hcircuit⟩
      refine (List.mem_append.1 ht).resolve_right fun ht => ?_
      obtain rfl := List.mem_singleton.1 ht
      exact hparked hp hticket.symm
    timer_open := fun t ht => h.timer_open t (List.mem_append_left _ ht)
    timer_waits := fun t ht => h.timer_waits t (List.mem_append_left _ ht)
    timer_apart := fun t ht => h.timer_apart t (List.mem_append_left _ ht) }

theorem take (h : Sound c n) {r : RunRequest} (hfree : c.parked.find? r.id = none)
    {group : List String} (hgroup : group.Nodup) (hr : r.id ∈ group) :
    Sound (Cluster.start { c with parked := c.parked.insert r.id ⟨n, r⟩ } group) (n + 1) := by
  refine ((h.wait hfree 0).start hgroup).disarm
    (c := Cluster.start { c with parked := c.parked.insert r.id ⟨n, r⟩ } group)
    (t := ⟨n, r.id, 0⟩) fun {id p} hp => ?_
  rw [find?_start] at hp
  split at hp
  · cases hp
  · next hid =>
    rw [KeyMap.find?_insert, if_neg (ne_of_mem_of_not_mem hr hid).symm] at hp
    exact Nat.ne_of_lt (h.parked_lt hp)

theorem launch (h : Sound c n) (r : RunRequest) :
    Sound { c with running := c.running ++ [[⟨n, r⟩]] } (n + 1) := by
  obtain ⟨hopen, hparked, hrunning, -⟩ := h.fresh_ticket
  have hmem {p : Parked} :
      p ∈ (c.running ++ [[(⟨n, r⟩ : Parked)]]).flatten ↔ p ∈ c.running.flatten ∨ p = ⟨n, r⟩ := by
    rw [List.flatten_append, List.mem_append, List.flatten_singleton, List.mem_singleton]
  exact {
    parked_id := h.parked_id
    parked_inj := h.parked_inj
    parked_lt := fun hp => Nat.lt_succ_of_lt (h.parked_lt hp)
    parked_open := h.parked_open
    parked_timer := h.parked_timer
    parked_apart := fun hp q hq => by
      rcases hmem.1 hq with hq | rfl
      · exact h.parked_apart hp q hq
      · exact (hparked hp).symm
    running_lt := fun p hp => by
      rcases hmem.1 hp with hp | rfl
      · exact Nat.lt_succ_of_lt (h.running_lt p hp)
      · exact Nat.lt_succ_self n
    running_nodup := by
      rw [List.flatten_append, List.flatten_singleton, List.map_append, List.map_singleton,
        List.nodup_append]
      refine ⟨h.running_nodup, List.nodup_singleton _, fun a ha b hb => ?_⟩
      obtain ⟨p, hp, rfl⟩ := List.mem_map.1 ha
      rw [List.mem_singleton.1 hb]
      exact hrunning p hp
    timer_open := h.timer_open
    timer_waits := fun t ht =>
      (h.timer_waits t ht).imp_right fun ⟨p, hp, heq⟩ => ⟨p, hmem.2 (.inl hp), heq⟩
    timer_apart := h.timer_apart
    expired_lt := fun t ht => Nat.lt_succ_of_lt (h.expired_lt t ht)
    expired_open := h.expired_open
    expired_parked := h.expired_parked
    answer_lt := fun hanswer => Nat.lt_succ_of_lt (h.answer_lt hanswer)
    answers_nodup := h.answers_nodup
    accounted := fun ticket hticket => by
      rcases Nat.lt_succ_iff_lt_or_eq.1 hticket with hlt | rfl
      · refine (h.accounted ticket hlt).imp_right (.imp_right (.imp_left fun ⟨p, hp, heq⟩ => ?_))
        exact ⟨p, hmem.2 (.inl hp), heq⟩
      · exact .inr (.inr (.inl ⟨⟨ticket, r⟩, hmem.2 (.inr rfl), rfl⟩)) }

theorem refuse (h : Sound c n) (r : Response) : Sound (c.reply n r) (n + 1) := by
  obtain ⟨-, hparked, -, hunexpired⟩ := h.fresh_ticket
  have hsettled := h.settle (fun _ => Nat.lt_succ_iff_lt_or_eq)
    ⟨fun hp => ⟨hp, hparked hp⟩, And.left⟩ r
  rwa [filter_expired hunexpired] at hsettled

theorem join (h : Sound c n) (r : RunRequest) : Sound (c.join n r) (n + 1) := by
  have hfree : (c.evict r.id).parked.find? r.id = none := by rw [find?_evict, if_pos rfl]
  cases hmissing : (Reach.missing (c.park n r).peers r.id).isEmpty with
  | true =>
    rw [join_of_complete hmissing, park_eq]
    refine (h.evict r.id).take hfree ?_ ?_
    · exact (Reach.group_sorted _ _).imp fun hlt => (String.ne_of_lt hlt)
    · exact Reach.mem_group_iff.2 ⟨.refl, Reach.missing_isEmpty_iff.1 hmissing _ .refl⟩
  | false =>
    rw [join_of_missing hmissing, park_eq]
    exact (h.evict r.id).wait hfree _

theorem accept (h : Sound c n) (unit : String) (r : RunRequest) :
    Sound (c.accept unit n r) (n + 1) := by
  have hlast : Sound { c with last := c.last.insert unit r } n :=
    h.congr rfl rfl rfl rfl rfl
  unfold Cluster.accept
  dsimp only
  split
  · exact hlast.join r
  · split
    · exact hlast.refuse _
    · exact hlast.launch r

theorem receive (h : Sound c c.nextTicket) (unit : String) (m : Message) :
    Sound (c.receive unit m).2 (c.nextTicket + 1) := by
  have hnext : Sound { c with nextTicket := c.nextTicket + 1 } c.nextTicket :=
    h.congr rfl rfl rfl rfl rfl
  unfold Cluster.receive
  dsimp only
  split
  · exact hnext.accept unit _
  · split
    · exact hnext.refuse _
    · exact hnext.accept unit _

/-! ### Ends of runs -/

theorem replies (h : Sound c n) {l : List (Parked × Response)}
    (hlt : ∀ a ∈ l, a.1.ticket < n)
    (hparked : ∀ a ∈ l, ∀ {id p}, c.parked.find? id = some p → p.ticket ≠ a.1.ticket) :
    Sound (l.foldl (fun c a => c.reply a.1.ticket a.2) c) n := by
  induction l generalizing c with
  | nil => exact h
  | cons a rest ih =>
    rw [List.forall_mem_cons] at hlt
    refine ih (h.reply hlt.1 (hparked a List.mem_cons_self) a.2) hlt.2 fun a' ha' => ?_
    rw [reply_parked]
    exact hparked a' (List.mem_cons_of_mem _ ha')

/-- A run all of whose members have an answer or are about to be given up is over. -/
theorem retire (h : Sound c n) {place : Nat} {group : List Parked}
    (hgroup : c.running[place]? = some group)
    (hanswered : ∀ p ∈ group, (c.answer? p.ticket).isSome = true ∨ c.hasExpired p.ticket = true) :
    Sound { c with running := c.running.eraseIdx place } n := by
  have hperm : (group ++ (c.running.eraseIdx place).flatten).Perm c.running.flatten := by
    obtain ⟨hlt, rfl⟩ := List.getElem?_eq_some_iff.1 hgroup
    exact (List.getElem_cons_eraseIdx_perm hlt).flatten
  have hrest {p : Parked} (hp : p ∈ (c.running.eraseIdx place).flatten) : p ∈ c.running.flatten :=
    hperm.mem_iff.1 (List.mem_append_right _ hp)
  have hover {p : Parked} (hp : p ∈ c.running.flatten) :
      ((c.answer? p.ticket).isSome = true ∨ c.hasExpired p.ticket = true) ∨
        p ∈ (c.running.eraseIdx place).flatten :=
    (List.mem_append.1 (hperm.mem_iff.2 hp)).imp_left (hanswered p)
  exact { h with
    parked_apart := fun hp q hq => h.parked_apart hp q (hrest hq)
    running_lt := fun p hp => h.running_lt p (hrest hp)
    running_nodup := by
      have hall := (hperm.map (·.ticket)).nodup_iff.2 h.running_nodup
      rw [List.map_append, List.nodup_append] at hall
      exact hall.2.1
    timer_waits := fun t ht => by
      refine (h.timer_waits t ht).imp_right fun ⟨p, hp, heq, hid⟩ => ⟨p, ?_, heq, hid⟩
      refine (hover hp).resolve_left ?_
      rw [heq, h.timer_open t ht, h.timer_apart t ht]
      simp
    accounted := fun ticket hticket => by
      rcases h.accounted ticket hticket with hanswer | hparked | ⟨p, hp, rfl⟩ | hexpired
      · exact .inl hanswer
      · exact .inr (.inl hparked)
      · rcases hover hp with (hanswer | hexpired) | hp
        · exact .inl hanswer
        · exact .inr (.inr (.inr hexpired))
        · exact .inr (.inr (.inl ⟨p, hp, rfl⟩))
      · exact .inr (.inr (.inr hexpired)) }

theorem complete (h : Sound c n) (place : Nat) (elapsed : Float) :
    Sound (c.complete place elapsed) n := by
  cases hgroup : c.running[place]? with
  | none => rwa [Cluster.complete, hgroup]
  | some group =>
    have hmem {a : Parked × Response} (ha : a ∈ c.outcomes group elapsed) :
        a.1 ∈ c.running.flatten := by
      have hmap := List.mem_map_of_mem (f := (·.1)) ha
      rw [map_fst_outcomes] at hmap
      exact List.mem_flatten_of_mem (List.mem_of_getElem? hgroup) hmap
    have hall := h.replies (fun a ha => h.running_lt a.1 (hmem ha))
      fun a ha _ _ hp => (h.parked_apart hp a.1 (hmem ha)).symm
    have hplace : ((c.outcomes group elapsed).foldl (fun c a => c.reply a.1.ticket a.2)
        c).running[place]? = some group := by
      rw [(foldl_reply_rest ..).2.1, hgroup]
    have hover := hall.retire hplace fun p hp => by
      rw [hasExpired, (foldl_reply_rest ..).2.2.2.2.1, ← hasExpired]
      cases hexpired : c.hasExpired p.ticket with
      | true => exact .inr rfl
      | false => exact .inl (isSome_answer?_foldl_reply (by rwa [map_fst_outcomes]) hexpired)
    rw [complete_of_some hgroup, foldl_reply_with]
    refine hover.congr rfl rfl rfl ?_ rfl
    rw [(foldl_reply_rest ..).2.1]

/-! ### Time -/

theorem expire (h : Sound c n) {t : ParkTimer} (ht : t ∈ c.timers) : Sound (c.expire t) n :=
  have hexpired {other : Nat} :
      (c.expire t).hasExpired other = true ↔ c.hasExpired other = true ∨ t.ticket = other := by
    simp [hasExpired, Cluster.expire]
  have hlate {t' : ParkTimer} : t' ∈ (c.expire t).expired ↔ t' ∈ c.expired ∨ t' = t := by
    simp [Cluster.expire]
  have htimer {t' : ParkTimer} :
      t' ∈ (c.expire t).timers ↔ t' ∈ c.timers ∧ t'.ticket ≠ t.ticket := by
    simp [Cluster.expire]
  have hparked {id p} (hp : c.parked.find? id = some p) (heq : p.ticket = t.ticket) :
      id = t.circuit := by
    rcases h.timer_waits t ht with ⟨q, hq, hqt⟩ | ⟨q, hq, hqt, -⟩
    · exact h.parked_inj hp hq (heq.trans hqt.symm)
    · exact absurd (hqt.trans heq.symm) (h.parked_apart hp q hq)
  { h with
    parked_timer := fun {id p} hp => by
      by_cases heq : p.ticket = t.ticket
      · exact ⟨t, List.mem_append_right _ (hlate.2 (.inr rfl)), heq.symm, (hparked hp heq).symm⟩
      · obtain ⟨t', ht', hticket, hcircuit⟩ := h.parked_timer hp
        refine ⟨t', List.mem_append.2 ((List.mem_append.1 ht').imp (fun ht' => ?_) fun ht' => ?_),
          hticket, hcircuit⟩
        · exact htimer.2 ⟨ht', hticket ▸ heq⟩
        · exact hlate.2 (.inl ht')
    timer_open := fun t' ht' => h.timer_open t' (htimer.1 ht').1
    timer_waits := fun t' ht' => h.timer_waits t' (htimer.1 ht').1
    timer_apart := fun t' ht' => by
      refine Bool.eq_false_iff.2 fun hlate => ?_
      rcases hexpired.1 hlate with hlate | heq
      · rw [h.timer_apart t' (htimer.1 ht').1] at hlate
        cases hlate
      · exact (htimer.1 ht').2 heq.symm
    expired_lt := fun t' ht' => by
      rcases hlate.1 ht' with ht' | rfl
      · exact h.expired_lt t' ht'
      · exact h.timer_lt ht
    expired_open := fun t' ht' => by
      rcases hlate.1 ht' with ht' | rfl
      · exact h.expired_open t' ht'
      · exact h.timer_open t' ht
    expired_parked := fun t' ht' _ _ hp heq => by
      rcases hlate.1 ht' with ht' | rfl
      · exact h.expired_parked t' ht' hp heq
      · exact hparked hp heq
    accounted := fun ticket hticket =>
      (h.accounted ticket hticket).imp_right (.imp_right (.imp_right fun h => hexpired.2 (.inl h))) }

/-- The request of the timer may be parked still; or another one is parked in its place, or none. -/
theorem giveUp (h : Sound c n) {t : ParkTimer} (ht : t ∈ c.expired) : Sound (c.giveUp t) n := by
  unfold Cluster.giveUp replyError
  dsimp only
  generalize Response.ofError _ = r
  by_cases hown : ∃ p, c.parked.find? t.circuit = some p ∧ p.ticket = t.ticket
  · obtain ⟨p, hp, heq⟩ := hown
    have hfind {id : String} {q : Parked} : (c.parked.erase t.circuit).find? id = some q ↔
        c.parked.find? id = some q ∧ q.ticket ≠ p.ticket := h.find?_erase_of_parked hp
    have hsettled := h.settle (lt_iff_of_lt (h.parked_lt hp)) hfind r
    -- The ticket is answered before its entry is dropped, and dropping it answers nobody again.
    have hreply := reply_comm { c with expired := c.expired.filter (·.ticket ≠ p.ticket) } p.ticket r
      (f := fun c' => { c' with parked := c.parked.erase t.circuit }) (fun _ _ _ => rfl) rfl rfl rfl
    rw [hreply] at hsettled
    have hevict (c' : Cluster) (hsame : c'.parked = c.parked) : c'.evict t.circuit =
        { c' with parked := c.parked.erase t.circuit }.replyError p.ticket
          (.invalidRequest (.abandoned t.circuit)) := by
      rw [evict_of_some (hsame ▸ hp), hsame]
    rw [hevict, ← heq]
    · exact hsettled.reply (h.parked_lt hp) (fun hq => (hfind.1 hq).2) _
    · exact reply_parked ..
  · have hfind {id p} :
        c.parked.find? id = some p ↔ c.parked.find? id = some p ∧ p.ticket ≠ t.ticket := by
      refine ⟨fun hp => ⟨hp, fun heq => ?_⟩, And.left⟩
      obtain rfl := h.expired_parked t ht hp heq
      exact hown ⟨p, hp, heq⟩
    exact (h.settle (lt_iff_of_lt (h.expired_lt t ht)) hfind r).evict t.circuit

/-! ### Events -/

/-- The tickets are where they should be after every event. -/
theorem next (h : Sound c c.nextTicket) {e : Event} (he : c.Enabled e) :
    Sound (c.next e) (c.next e).nextTicket := by
  cases e with
  | arrive unit m =>
    have := h.receive unit m
    rwa [← nextTicket_receive c unit m] at this
  | finish place elapsed =>
    have := h.complete place elapsed
    rwa [← nextTicket_complete c place elapsed] at this
  | expire t => exact h.expire he.1
  | giveUp t =>
    have := h.giveUp he
    rwa [← nextTicket_giveUp c t] at this
  | pass seconds => exact h.congr rfl rfl rfl rfl rfl

end Sound

theorem sound_fresh (maxQubits parkTimeout : Nat) (seed : UInt64) :
    Sound (fresh maxQubits parkTimeout seed) 0 where
  parked_id h := by cases h
  parked_inj h := by cases h
  parked_lt h := by cases h
  parked_open h := by cases h
  parked_timer h := by cases h
  parked_apart h := by cases h
  running_lt p hp := by cases hp
  running_nodup := .nil
  timer_open t ht := by cases ht
  timer_waits t ht := by cases ht
  timer_apart t ht := by cases ht
  expired_lt t ht := by cases ht
  expired_open t ht := by cases ht
  expired_parked t ht := by cases ht
  answer_lt h := by cases h
  answers_nodup := .nil
  accounted ticket h := by cases h

theorem sound_after {maxQubits parkTimeout : Nat} {seed : UInt64} {es : List Event}
    (h : (fresh maxQubits parkTimeout seed).Admits es) :
    Sound ((fresh maxQubits parkTimeout seed).after es)
      ((fresh maxQubits parkTimeout seed).after es).nextTicket :=
  h.keeps (P := fun c => Sound c c.nextTicket) (fun _ _ hc he => hc.next he)
    (sound_fresh maxQubits parkTimeout seed)

end QuantumRelay.Cluster
