import Tenure.Proofs.Lifecycle.Pace

/-!
# How renewals are counted

The counters of renewals tell what has become of the renewals of a context: each
one that succeeded and each one that was missed is counted once, and the one whose
failure ended the context is counted apart.

* `Metrics.tally` — the counters of renewals;
* `Context.Counted` — the invariant that ties them to the answers, and the time of
  the end to the last answer;
* `World.Reachable.metrics_of_single` — with only one attempt, the metrics of the
  world are those of its log.
-/

namespace Tenure.Lifecycle

variable {α : Type}

/-- The counters of renewals. -/
structure Tally where
  ok : Nat
  missed : Nat
  expired : Nat
deriving DecidableEq

def Metrics.tally (m : Metrics) : Tally := ⟨m.renewalsOk, m.renewalsMissed, m.renewalsExpired⟩

/-- The tally after the renewals that `missed` tells about, with `expired` more that were
the last one. -/
def Tally.of (missed : List Bool) (expired : Nat) : Tally :=
  ⟨missed.count false, missed.count true, expired⟩

theorem Metrics.tally_record (m : Metrics) {e : Event} (h : e.isRenewal = false) :
    (m.record e).tally = m.tally := by
  cases e with
  | renewed => exact absurd h (by simp [Event.isRenewal])
  | renewalMissed cause left => exact absurd h (by simp [Event.isRenewal])
  | expired cause => exact absurd h (by simp [Event.isRenewal])
  | ending reason => cases reason <;> rfl
  | _ => rfl

theorem Log.tally_apart (log : Log) {more : Log} (h : ∀ x ∈ more, x.2.isRenewal = false) :
    (log ++ more : Log).metrics.tally = log.metrics.tally := by
  induction more generalizing log with
  | nil => rw [List.append_nil]
  | cons x rest ih =>
      have hrest := ih (log ++ [x]) fun y hy => h y (List.mem_cons_of_mem _ hy)
      rw [List.append_assoc] at hrest
      refine hrest.trans ?_
      rw [Log.metrics_append]
      exact log.metrics.tally_record (h x List.mem_cons_self)

/-! ## The invariant -/

namespace Context

/-- The last renewal, with this answer, has ended the context: it is counted apart, and the
context has ended when it was known what had become of it. -/
structure Lost (c : Context) (log : Log) (settled : List (Answer Unit))
    (answer : Answer Unit) (e : SessionError) : Prop where
  tally : log.metrics.tally = .of (c.missed settled) 1
  time : ∃ since, log.renewalTimes.getLast? = some since ∧
    (since + answer.settles c.period, .ending e) ∈ log

/-- How the counters of a context that is live, or that has been lost, tell of its renewals. -/
structure Counted (c : Context) (log : Log) (answers : List (Answer Unit)) : Prop where
  live : c.error = none → log.metrics.tally = .of (c.missed (c.settled answers)) 0
  lost : ∀ id cause, c.error = some (.renewFailed id cause) →
    ∃ settled answer, answers = settled ++ [answer] ∧
      c.Lost log settled answer (.renewFailed id cause)

theorem tally_missed (c : Context) (settled : List (Answer Unit)) (answer : Answer Unit) :
    Tally.of (c.missed (settled ++ [answer])) 0 =
      ⟨(c.missed settled).count false + [answer.misses c.period].count false,
        (c.missed settled).count true + [answer.misses c.period].count true, 0⟩ := by
  unfold Tally.of
  rw [missed_concat, List.count_append, List.count_append]

/-- Events that are no renewals count for nothing here. -/
theorem Counted.apart {c c' : Context} {log : Log} {answers : List (Answer Unit)}
    (h : c.Counted log answers) {events : List Event} {answer : Answer Unit}
    (hapart : c.Apart events c') (hperiod : c'.period = c.period)
    (hrenews : c'.error = none → c'.renewal.isOver = false) (now : Nat) :
    c'.Counted (log ++ events.map (now, ·)) (answers ++ World.answersAmong answer events) := by
  have hmore : ∀ x ∈ events.map (now, ·), x.2.isRenewal = false :=
    List.forall_mem_map.mpr hapart.events
  have hunmarked : ∀ e ∈ events, e.isMark = false :=
    fun e he => Event.isMark_of_not_isRenewal (hapart.events e he)
  have htally := Log.tally_apart log hmore
  rw [World.answersAmong_unmarked hunmarked, List.append_nil]
  refine ⟨fun hlive => ?_, fun id cause herror => ?_⟩
  -- as long as the context is live, the same renewals are settled
  · have hsame : c'.renewal = c.renewal := by
      rcases hapart.renewal with hsame | ⟨hover, _⟩
      · exact hsame
      · rw [hrenews hlive] at hover
        exact absurd hover Bool.false_ne_true
    rw [htally, h.live (hapart.live hlive)]
    unfold settled
    rw [hsame, missed_eq hperiod]
  · obtain ⟨settled, given, hsplit, htimely, since, hsince, hending⟩ :=
      h.lost id cause (hapart.error id cause herror)
    refine ⟨settled, given, hsplit, ?_, since, ?_, ?_⟩
    · rw [htally, htimely, missed_eq hperiod]
    · rw [Log.renewalTimes_unmarked log (List.forall_mem_map.mpr hunmarked)]
      exact hsince
    · rw [hperiod]
      exact List.mem_append_left _ hending

/-- A call that fails is noted when it is settled. -/
theorem InFlight.now_eq {period : Duration} {now : Nat} {log : Log}
    {answers : List (Answer Unit)} {call : Pending Unit} {answer : Answer Unit}
    (h : InFlight period now log answers call answer)
    (hfits : period.secs < clockReachSecs) {cause : ClientError} {how : Event}
    (hfailed : call.Failed now period cause how) :
    now = call.since + answer.settles period := by
  have hearly := h.early
  rw [h.issue] at hearly hfailed
  have hlate := hfailed.wake_le
  rw [Pending.wake_issue hfits] at hearly hlate
  exact Nat.le_antisymm hearly hlate

theorem isRenewal_of_failed {call : Pending Unit} {now : Nat} {period : Duration}
    {cause : ClientError} {how : Event} (h : call.Failed now period cause how) :
    how.isRenewal = false := by
  cases h <;> rfl

/-- What is known of the renewal in flight when it is noted how it went. -/
theorem Counted.before {now : Nat} {c : Context} {log : Log} {answers : List (Answer Unit)}
    (h : c.Counted log answers) (hbooks : c.Bookkeeping now log answers)
    {tick expiry : Nat} {call : Pending Unit}
    (hrenewal : c.renewal = .renewing tick expiry call) (hlive : c.error = none) :
    ∃ settled answer, answers = settled ++ [answer] ∧
      InFlight c.period now log answers call answer ∧
      log.metrics.tally = .of (c.missed settled) 0 := by
  obtain ⟨answer, hflight⟩ := hbooks.inFlight call (by rw [hrenewal]; rfl)
  obtain ⟨settled, hsplit⟩ := hflight.split
  refine ⟨settled, answer, hsplit, hflight, ?_⟩
  have htally := h.live hlive
  rwa [hsplit, settled_of_renewing hrenewal] at htally

theorem Counted.of_live {c : Context} {log : Log} {answers : List (Answer Unit)}
    (hlive : c.error = none)
    (htally : log.metrics.tally = .of (c.missed (c.settled answers)) 0) :
    c.Counted log answers :=
  ⟨fun _ => htally, fun _ _ herror => absurd (hlive.symm.trans herror) (by simp)⟩

/-- A renewal that is issued is not counted until it is settled. -/
theorem Counted.issued {s : Surroundings} {c : Context} {log : Log}
    {answers : List (Answer Unit)} (h : c.Counted log answers) {tick expiry : Nat}
    (hrenewal : c.renewal = .waiting tick expiry) (hlive : c.error = none) (next : Nat) :
    Counted { c with renewal := .renewing next expiry
                      (.issue s.number s.now s.renewAnswer c.period) }
      (log ++ [(s.now, .issued s.number (.renew c.session.id))])
      (answers ++ [s.renewAnswer]) := by
  have htally := h.live hlive
  rw [settled_of_waiting hrenewal] at htally
  refine .of_live hlive ?_
  rw [settled_of_renewing rfl, Log.metrics_append]
  exact htally

theorem Counted.renewed {now : Nat} {c : Context} {log : Log} {answers : List (Answer Unit)}
    (h : c.Counted log answers) (hbooks : c.Bookkeeping now log answers)
    {tick expiry : Nat} {call : Pending Unit}
    (hrenewal : c.renewal = .renewing tick expiry call) (hlive : c.error = none)
    (hready : call.isReady now = true) (houtcome : call.outcome = .ok ()) :
    Counted { c with renewal := .waiting tick (toNanos call.since + c.ttl.nanos) }
      (log ++ [(now, .answered call.number true), (now, .renewed)]) answers := by
  obtain ⟨settled, answer, rfl, hflight, htally⟩ := h.before hbooks hrenewal hlive
  have hok := Answer.misses_of_ok (hflight.within_ok c.period_fits hready houtcome)
  refine .of_live hlive ?_
  rw [settled_of_waiting rfl]
  show _ = Tally.of (c.missed (settled ++ [answer])) 0
  rw [tally_missed, hok, Log.metrics_append]
  show Tally.mk (log.metrics.tally.ok + 1) log.metrics.tally.missed log.metrics.tally.expired = _
  rw [htally]
  rfl

theorem Counted.missedOne {now : Nat} {c : Context} {log : Log}
    {answers : List (Answer Unit)} (h : c.Counted log answers)
    (hbooks : c.Bookkeeping now log answers) {tick expiry : Nat} {call : Pending Unit}
    {cause : ClientError} {how : Event} (hrenewal : c.renewal = .renewing tick expiry call)
    (hlive : c.error = none) (hfailed : call.Failed now c.period cause how) (left : Nat) :
    Counted { c with renewal := .waiting tick expiry }
      (log ++ [(now, how), (now, .renewalMissed cause left)]) answers := by
  obtain ⟨settled, answer, rfl, hflight, htally⟩ := h.before hbooks hrenewal hlive
  have hmissed := Answer.misses_of_error (hflight.within c.period_fits hfailed)
  have hhow := log.metrics.tally_record (isRenewal_of_failed hfailed)
  refine .of_live hlive ?_
  rw [settled_of_waiting rfl]
  show _ = Tally.of (c.missed (settled ++ [answer])) 0
  rw [tally_missed, hmissed, Log.metrics_append]
  show Tally.mk (log.metrics.record how).tally.ok ((log.metrics.record how).tally.missed + 1)
    (log.metrics.record how).tally.expired = _
  rw [hhow, htally]
  rfl

theorem Counted.expired {now : Nat} {c : Context} {log : Log} {answers : List (Answer Unit)}
    (h : c.Counted log answers) (hbooks : c.Bookkeeping now log answers)
    {tick expiry : Nat} {call : Pending Unit} {cause : ClientError} {how : Event}
    (hrenewal : c.renewal = .renewing tick expiry call) (hlive : c.error = none)
    (hfailed : call.Failed now c.period cause how) :
    Counted { c.ended (.renewFailed c.session.id cause) with renewal := .tearingDown }
      (log ++ [(now, how), (now, .expired cause),
        (now, .ending (.renewFailed c.session.id cause))]) answers := by
  obtain ⟨settled, answer, rfl, hflight, htally⟩ := h.before hbooks hrenewal hlive
  refine ⟨fun hnone => absurd hnone (by simp [ended]), fun id cause' herror => ?_⟩
  obtain ⟨rfl, rfl⟩ := SessionError.renewFailed.inj (Option.some.inj herror)
  refine ⟨settled, answer, rfl, ?_, call.since, ?_, ?_⟩
  · have hhow := log.metrics.tally_record (isRenewal_of_failed hfailed)
    rw [Log.metrics_append]
    show Tally.mk (log.metrics.record how).tally.ok (log.metrics.record how).tally.missed
      ((log.metrics.record how).tally.expired + 1) = _
    rw [hhow, htally]
    rfl
  · rw [Log.renewalTimes_unmarked log
      (List.forall_mem_cons.mpr ⟨isMark_of_failed hfailed, by simp [Event.isMark]⟩)]
    exact hflight.time
  · -- the end is entered in the same turn in which the failure is noted
    refine List.mem_append_right _ ?_
    show (call.since + answer.settles c.period, _) ∈ _
    rw [← hflight.now_eq c.period_fits hfailed]
    simp

/-- Each move keeps count. -/
theorem Counted.move {s : Surroundings} {actor : Actor} {c c' : Context}
    {events : List Event} {log : Log} {answers : List (Answer Unit)}
    (h : c.Counted log answers) (hbooks : c.Bookkeeping s.now log answers)
    (hmove : Move s actor c events c') :
    c'.Counted (log ++ events.map (s.now, ·))
      (answers ++ World.answersAmong s.renewAnswer events) := by
  have hafter := hbooks.move hmove
  have hanswers : (∀ e ∈ events, e.isMark = false) →
      answers ++ World.answersAmong s.renewAnswer events = answers := by
    intro hunmarked
    rw [World.answersAmong_unmarked hunmarked, List.append_nil]
  cases hmove.atRenewal with
  | apart hapart => exact h.apart hapart hmove.period_eq hafter.renews s.now
  | issued hrenewal hlive _ => exact h.issued hrenewal hlive _
  | renewed hrenewal hlive hready houtcome =>
      have hcounted := h.renewed hbooks hrenewal hlive hready houtcome
      simpa [World.answersAmong, Event.renewCall?] using hcounted
  | missed hrenewal hlive hfailed _ =>
      rw [hanswers (List.forall_mem_cons.mpr
        ⟨isMark_of_failed hfailed, by simp [Event.isMark]⟩)]
      exact h.missedOne hbooks hrenewal hlive hfailed _
  | expired hrenewal hlive hfailed _ =>
      rw [hanswers (List.forall_mem_cons.mpr
        ⟨isMark_of_failed hfailed, by simp [Event.isMark]⟩)]
      exact h.expired hbooks hrenewal hlive hfailed

theorem counted_invariant : Invariant fun now c log answers =>
    c.Bookkeeping now log answers ∧ c.Counted log answers where
  start now requested session id agent parent log hresolve hopening := by
    refine ⟨bookkeeping_invariant.start now requested session id agent parent log hresolve
      hopening, fun _ => ?_, fun _ _ herror => absurd herror (by simp [Context.start])⟩
    have hapart : ∀ x ∈ log, x.2.isRenewal = false := by
      intro x hx
      have hevent := hopening x hx
      revert hevent
      cases x.2 with
      | issued n call => cases call <;> simp [Event.isOpening, Event.isRenewal]
      | _ => simp [Event.isOpening, Event.isRenewal]
    exact Log.tally_apart [] hapart
  move _ _ _ _ _ _ _ h hmove := ⟨h.1.move hmove, h.2.move h.1 hmove⟩
  pass _ _ _ _ _ _ h hpassing := ⟨h.1.pass hpassing, h.2⟩

end Context

/-! ## The metrics of a world -/

namespace World

theorem MetricsKept.step {w : World α} (h : w.MetricsKept) (a : Action α) :
    (w.step a).MetricsKept := by
  cases step_change w a with
  | none hkept _ _ _ => exact hkept.metrics h
  | passed t hw' _ _ _ => rw [hw']; exact h
  | made hkept _ _ _ _ _ _ => exact hkept.metrics h
  | opening hkept _ _ _ _ _ _ _ _ => exact hkept.metrics h
  | context hkept _ _ _ _ _ _ _ _ _ => exact hkept.metrics h

theorem Reachable.metricsKept {w : World α} (hw : w.Reachable) : w.MetricsKept := by
  induction hw with
  | start agents scopes now => rfl
  | step a _ ih => exact ih.step a

/-- With only one attempt, the metrics are those of its log. -/
theorem Reachable.metrics_of_single {w : World α} (hw : w.Reachable)
    (hsingle : w.attempts.length = 1) : w.metrics = (w.log 0).metrics := by
  refine hw.metricsKept.trans ?_
  unfold log Log.metrics countEvents
  rw [hw.grounded.filter_journal (Nat.le_of_eq hsingle), List.foldl_map, List.foldl_map]

end World

end Tenure.Lifecycle
