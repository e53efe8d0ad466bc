import Tenure.Proofs.Lifecycle.Invariant

/-!
# What a context knows about its renewals

The renewal task keeps an expiry and, while a renewal is in flight, the call. This
module ties both to the log: the expiry is one TTL after the last renewal that
succeeded was issued, and the call in flight is the last one that was issued,
with the answer that the agent has given to it.

* `Answer.within` — what comes of a call with a time limit;
* `Context.AtRenewal` — what a move has to do with renewals: it issues one, notes
  how one went, or leaves them alone;
* `Context.Bookkeeping` — the invariant; it holds of every context
  (`Context.bookkeeping_invariant`).
-/

namespace Tenure.Lifecycle

variable {α : Type}

/-! ## Calls with a time limit -/

/-- What comes of a call with a time limit: its outcome if the answer comes in time, a
timeout if not. An answer at the very limit is in time. -/
def Answer.within {β : Type} (a : Answer β) (limit : Duration) : Except ClientError β :=
  if a.delay.any (· ≤ wakeAt limit.nanos) then a.outcome else .error (.timeout limit)

/-- How long it takes until it is known what comes of a call. -/
def Answer.settles {β : Type} (a : Answer β) (limit : Duration) : Nat :=
  match a.delay with
  | some d => min d (wakeAt limit.nanos)
  | none => wakeAt limit.nanos

theorem Answer.settles_le {β : Type} (a : Answer β) (limit : Duration) :
    a.settles limit ≤ wakeAt limit.nanos := by
  unfold settles
  split
  · exact Nat.min_le_right _ _
  · exact Nat.le_refl _

theorem wakeAt_toNanos_add (now nanos : Nat) :
    wakeAt (toNanos now + nanos) = now + wakeAt nanos := by
  simp only [wakeAt, toNanos, nanosPerMilli]
  omega

theorem wakeAt_mono {a b : Nat} (h : a ≤ b) : wakeAt a ≤ wakeAt b :=
  Nat.div_le_div_right (Nat.add_le_add_right h _)

/-- How long a wait takes at most; one that does not fit the clock is cut. -/
def waitFor (d : Duration) : Nat :=
  wakeAt (if d.secs < clockReachSecs then d.nanos else farFuture)

theorem waitFor_of_fits {d : Duration} (hfits : d.secs < clockReachSecs) :
    waitFor d = wakeAt d.nanos := by
  unfold waitFor
  rw [if_pos hfits]

theorem waitFor_le (d : Duration) : waitFor d ≤ wakeAt d.nanos := by
  by_cases hfits : d.secs < clockReachSecs
  · exact Nat.le_of_eq (waitFor_of_fits hfits)
  · unfold waitFor
    rw [if_neg hfits]
    apply wakeAt_mono
    have hreach : clockReachSecs = 9223372036854775808 := rfl
    simp only [Duration.secs, nanosPerSecond, hreach] at hfits
    simp only [farFuture, nanosPerSecond]
    omega

theorem wakeAt_deadlineAfter (now : Nat) (d : Duration) :
    wakeAt (deadlineAfter now d) = now + waitFor d := wakeAt_toNanos_add ..

/-- What comes of a call that is waited for with a time limit: as `Answer.within` has it,
where the limit fits the clock. -/
def Answer.heard {β : Type} (a : Answer β) (limit : Duration) : Except ClientError β :=
  if a.delay.any (· ≤ waitFor limit) then a.outcome else .error (.timeout limit)

/-- How long it takes until this is known. -/
def Answer.heardAfter {β : Type} (a : Answer β) (limit : Duration) : Nat :=
  match a.delay with
  | some d => min d (waitFor limit)
  | none => waitFor limit

theorem Answer.heard_of_fits {β : Type} (a : Answer β) {limit : Duration}
    (hfits : limit.secs < clockReachSecs) : a.heard limit = a.within limit := by
  unfold heard within
  rw [waitFor_of_fits hfits]

theorem Answer.heardAfter_of_fits {β : Type} (a : Answer β) {limit : Duration}
    (hfits : limit.secs < clockReachSecs) : a.heardAfter limit = a.settles limit := by
  unfold heardAfter settles
  rw [waitFor_of_fits hfits]

theorem Answer.heardAfter_le {β : Type} (a : Answer β) (limit : Duration) :
    a.heardAfter limit ≤ waitFor limit := by
  unfold heardAfter
  split
  · exact Nat.min_le_right _ _
  · exact Nat.le_refl _

/-- A third of a TTL always fits the clock. -/
theorem Context.period_fits (c : Context) : c.period.secs < clockReachSecs := by
  have hlt := c.ttl.nanos_lt
  have hbound : durationBound = 18446744073709551616 * 1000000000 := rfl
  have hreach : clockReachSecs = 9223372036854775808 := rfl
  simp only [Context.period, Duration.secs, Duration.nanos_divide, nanosPerSecond]
  omega

namespace Pending

variable {β : Type} {number since now : Nat} {answer : Answer β} {limit : Duration}

/-- A call wakes when it is settled. -/
theorem wake_issue_eq : (issue number since answer limit).wake = since + answer.heardAfter limit := by
  unfold wake Answer.heardAfter
  simp only [issue, wakeAt_deadlineAfter]
  cases answer.delay with
  | none => rfl
  | some d =>
      simp only [Option.map_some]
      omega

theorem wake_le_of_settled {call : Pending β} (h : call.isSettled now = true) :
    call.wake ≤ now := by
  unfold isSettled isReady at h
  unfold wake
  rw [Bool.or_eq_true] at h
  cases hat : call.readyAt with
  | none =>
      rw [hat] at h
      rcases h with hready | hdue
      · exact absurd hready (by simp)
      · exact wakeAt_le_of_isDue hdue
  | some t =>
      rw [hat, Option.any_some, decide_eq_true_eq] at h
      rcases h with hready | hdue
      · exact Nat.le_trans (Nat.min_le_left _ _) hready
      · exact Nat.le_trans (Nat.min_le_right _ _) (wakeAt_le_of_isDue hdue)

/-- An answer that has come by the time the call is noted has come in time. -/
theorem heard_of_ready (hearly : now ≤ (issue number since answer limit).wake)
    (hready : (issue number since answer limit).isReady now = true) :
    answer.heard limit = answer.outcome := by
  unfold wake at hearly
  unfold isReady at hready
  simp only [issue, wakeAt_deadlineAfter] at hearly hready
  unfold Answer.heard
  -- the answer has come, and it is not yet later than the limit
  cases hdelay : answer.delay with
  | none =>
      rw [hdelay] at hready
      exact absurd hready (by simp)
  | some d =>
      simp only [hdelay, Option.map_some, Option.any_some, decide_eq_true_eq] at hearly hready
      rw [if_pos]
      simp only [Option.any_some, decide_eq_true_eq]
      omega

/-- A call that is given up for its limit has no answer in time. -/
theorem heard_of_due (hready : (issue number since answer limit).isReady now = false)
    (hdue : isDue (issue number since answer limit).limit now = true) :
    answer.heard limit = .error (.timeout limit) := by
  have hlate := wakeAt_le_of_isDue hdue
  unfold isReady at hready
  simp only [issue, wakeAt_deadlineAfter] at hlate hready
  unfold Answer.heard
  cases hdelay : answer.delay with
  | none => rfl
  | some d =>
      simp only [hdelay, Option.map_some, Option.any_some, decide_eq_false_iff_not] at hready
      rw [if_neg]
      simp only [Option.any_some, decide_eq_true_eq]
      omega

theorem within_of_ready (hfits : limit.secs < clockReachSecs)
    (hearly : now ≤ (issue number since answer limit).wake)
    (hready : (issue number since answer limit).isReady now = true) :
    answer.within limit = answer.outcome := by
  rw [← answer.heard_of_fits hfits]
  exact heard_of_ready hearly hready

theorem within_of_due (hfits : limit.secs < clockReachSecs)
    (hready : (issue number since answer limit).isReady now = false)
    (hdue : isDue (issue number since answer limit).limit now = true) :
    answer.within limit = .error (.timeout limit) := by
  rw [← answer.heard_of_fits hfits]
  exact heard_of_due hready hdue

theorem wake_issue (hfits : limit.secs < clockReachSecs) :
    (issue number since answer limit).wake = since + answer.settles limit := by
  rw [wake_issue_eq, answer.heardAfter_of_fits hfits]

/-- A call that is noted as failed wakes no later. -/
theorem Failed.wake_le {number since now : Nat} {answer : Answer Unit} {limit : Duration}
    {cause : ClientError} {how : Event}
    (h : (issue number since answer limit).Failed now limit cause how) :
    (issue number since answer limit).wake ≤ now := by
  apply wake_le_of_settled
  unfold isSettled
  cases h with
  | refused hready _ => rw [hready]; rfl
  | late _ hdue => rw [hdue]; exact Bool.or_true _

/-- How a renewal has failed is what comes of its answer within the limit. -/
theorem Failed.within {number since now : Nat} {answer : Answer Unit} {limit : Duration}
    {cause : ClientError} {how : Event} (hfits : limit.secs < clockReachSecs)
    (hearly : now ≤ (issue number since answer limit).wake)
    (h : (issue number since answer limit).Failed now limit cause how) :
    answer.within limit = .error cause := by
  cases h with
  | refused hready houtcome => exact (within_of_ready hfits hearly hready).trans houtcome
  | late hready hdue => exact within_of_due hfits hready hdue

end Pending

/-! ## Moves and renewals -/

/-- The events that tell of renewals: one is issued, or it is known how one went. -/
def Event.isRenewal : Event → Bool
  | .issued _ (.renew _) => true
  | .renewed => true
  | .renewalMissed .. => true
  | .expired _ => true
  | _ => false

/-- The events that count for when renewals were issued and which of them succeeded. -/
def Event.isMark : Event → Bool
  | .issued _ (.renew _) => true
  | .renewed => true
  | _ => false

theorem Event.isMark_of_not_isRenewal {e : Event} (h : e.isRenewal = false) :
    e.isMark = false := by
  cases e with
  | issued n call => cases call <;> first | rfl | exact absurd h (by simp [isRenewal])
  | renewed => exact absurd h (by simp [isRenewal])
  | _ => rfl

theorem Event.isMark_of_isOpening {e : Event} (h : e.isOpening = true) : e.isMark = false := by
  cases e with
  | issued n call => cases call <;> first | rfl | exact absurd h (by simp [isOpening])
  | renewed => exact absurd h (by simp [isOpening])
  | _ => rfl

theorem Event.renewCall?_of_not_isMark {e : Event} (h : e.isMark = false) :
    e.renewCall? = none := by
  cases e with
  | issued n call => cases call <;> first | rfl | exact absurd h (by simp [isMark])
  | _ => rfl

namespace Renewal

/-- Whether the renewal task will renew no more. -/
def isOver : Renewal → Bool
  | .tearingDown => true
  | .exited => true
  | _ => false

/-- The expiry that the renewal task keeps. -/
def expiry? : Renewal → Option Nat
  | .waiting _ expiry => some expiry
  | .renewing _ expiry _ => some expiry
  | _ => none

/-- The renewal in flight. -/
def call? : Renewal → Option (Pending Unit)
  | .renewing _ _ call => some call
  | _ => none

theorem expiry?_of_isOver {r : Renewal} (h : r.isOver = true) : r.expiry? = none := by
  cases r <;> first | rfl | exact absurd h (by simp [isOver])

theorem call?_of_isOver {r : Renewal} (h : r.isOver = true) : r.call? = none := by
  cases r <;> first | rfl | exact absurd h (by simp [isOver])

end Renewal

namespace Context

/-- Nothing has happened to the renewals, except that there may be no more of them. -/
structure Apart (c : Context) (events : List Event) (c' : Context) : Prop where
  renewal : c'.renewal = c.renewal ∨
    c'.renewal.isOver = true ∧ (c.renewal.isOver = true ∨ c'.done = true)
  live : c'.error = none → c.error = none
  error : ∀ id cause, c'.error = some (.renewFailed id cause) →
    c.error = some (.renewFailed id cause)
  events : ∀ e ∈ events, e.isRenewal = false

/-- What a move has to do with the renewals. -/
inductive AtRenewal (s : Surroundings) : Context → List Event → Context → Prop
  | apart {c c' : Context} {events : List Event} (h : c.Apart events c') :
      AtRenewal s c events c'
  | issued {c : Context} {tick expiry : Nat} (hrenewal : c.renewal = .waiting tick expiry)
      (hlive : c.error = none) (hdue : isDue tick s.now = true) :
      AtRenewal s c [.issued s.number (.renew c.session.id)]
        { c with renewal := .renewing (c.nextTick tick s.now) expiry
                  (.issue s.number s.now s.renewAnswer c.period) }
  | renewed {c : Context} {tick expiry : Nat} {call : Pending Unit}
      (hrenewal : c.renewal = .renewing tick expiry call) (hlive : c.error = none)
      (hready : call.isReady s.now = true) (houtcome : call.outcome = .ok ()) :
      AtRenewal s c [.answered call.number true, .renewed]
        { c with renewal := .waiting tick (toNanos call.since + c.ttl.nanos) }
  | missed {c : Context} {tick expiry : Nat} {call : Pending Unit} {cause : ClientError}
      {how : Event} (hrenewal : c.renewal = .renewing tick expiry call)
      (hlive : c.error = none) (hfailed : call.Failed s.now c.period cause how)
      (htime : toNanos call.since < expiry) :
      AtRenewal s c [how, .renewalMissed cause (expiry - toNanos call.since)]
        { c with renewal := .waiting tick expiry }
  | expired {c : Context} {tick expiry : Nat} {call : Pending Unit} {cause : ClientError}
      {how : Event} (hrenewal : c.renewal = .renewing tick expiry call)
      (hlive : c.error = none) (hfailed : call.Failed s.now c.period cause how)
      (htime : expiry ≤ toNanos call.since) :
      AtRenewal s c [how, .expired cause, .ending (.renewFailed c.session.id cause)]
        { c.ended (.renewFailed c.session.id cause) with renewal := .tearingDown }

theorem isRenewal_of_isWork {events : List Event} (h : ∀ e ∈ events, e.isWork = true) :
    ∀ e ∈ events, e.isRenewal = false := by
  intro e he
  have hwork := h e he
  cases e <;> first | rfl | exact absurd hwork (by simp [Event.isWork])

theorem isRenewal_of_destroyOver {call : Pending Unit} {now : Nat} {limit : Duration}
    {events : List Event} (h : call.DestroyOver now limit events) :
    ∀ e ∈ events, e.isRenewal = false := by
  cases h <;> simp [Event.isRenewal]

/-- Every move issues a renewal, notes how one went, or leaves the renewals alone. -/
theorem Move.atRenewal {s : Surroundings} {actor : Actor} {c c' : Context}
    {events : List Event} (h : Move s actor c events c') : AtRenewal s c events c' := by
  have hnone : ∀ e ∈ ([] : List Event), e.isRenewal = false := by simp
  have hone : ∀ {e : Event}, e.isRenewal = false → ∀ x ∈ [e], x.isRenewal = false := by simp
  cases h with
  | leave _ hdone => exact .apart ⟨.inr ⟨rfl, .inr hdone⟩, id, fun _ _ => id, hnone⟩
  | orphaned _ hlive _ =>
      exact .apart ⟨.inr ⟨rfl, .inr rfl⟩, fun _ => hlive, by simp [ended], hone rfl⟩
  | givenUp _ hlive _ =>
      exact .apart ⟨.inr ⟨rfl, .inr rfl⟩, fun _ => hlive, by simp [ended], hone rfl⟩
  | issueRenewal hrenewal hlive _ _ hdue => exact .issued hrenewal hlive hdue
  | interrupted _ hdone => exact .apart ⟨.inr ⟨rfl, .inr hdone⟩, id, fun _ _ => id, hone rfl⟩
  | renewed hrenewal hlive hready houtcome => exact .renewed hrenewal hlive hready houtcome
  | missed hrenewal hlive hfailed htime => exact .missed hrenewal hlive hfailed htime
  | expired hrenewal hlive hfailed htime => exact .expired hrenewal hlive hfailed htime
  | tornDown hrenewal _ =>
      exact .apart ⟨.inr ⟨rfl, .inl (by rw [hrenewal]; rfl)⟩, id, fun _ _ => id, hnone⟩
  | issueDestroy _ => exact .apart ⟨.inl rfl, id, fun _ _ => id, hone rfl⟩
  | destroyOver _ hover =>
      exact .apart ⟨.inl rfl, id, fun _ _ => id, isRenewal_of_destroyOver hover⟩
  | cancel _ hlive => exact .apart ⟨.inl rfl, fun _ => hlive, by simp [ended], hone rfl⟩
  | drop => exact .apart ⟨.inl rfl, id, fun _ _ => id, hone rfl⟩
  | work _ hwork => exact .apart ⟨.inl rfl, id, fun _ _ => id, isRenewal_of_isWork hwork⟩
  | handOutToken => exact .apart ⟨.inl rfl, id, fun _ _ => id, hnone⟩
  | cancelToken k => exact .apart ⟨.inl rfl, id, fun _ _ => id, hnone⟩

/-- The end stays signalled. -/
theorem Move.done_of_done {s : Surroundings} {actor : Actor} {c c' : Context}
    {events : List Event} (h : Move s actor c events c') (hdone : c.done = true) :
    c'.done = true := by
  cases h <;> first | exact hdone | rfl

theorem ttl_congr {c c' : Context} (h : c'.session = c.session) : c'.ttl = c.ttl := by
  unfold ttl
  rw [h]

theorem Move.ttl_eq {s : Surroundings} {actor : Actor} {c c' : Context}
    {events : List Event} (h : Move s actor c events c') : c'.ttl = c.ttl :=
  ttl_congr h.frame.1

theorem Move.period_eq {s : Surroundings} {actor : Actor} {c c' : Context}
    {events : List Event} (h : Move s actor c events c') : c'.period = c.period := by
  unfold period
  rw [h.ttl_eq]

end Context

/-! ## Logs without marks -/

namespace Log

theorem Marks.note_of_not_isMark (m : Marks) {t : Nat} {e : Event} (h : e.isMark = false) :
    m.note (t, e) = m := by
  cases e with
  | issued n call => cases call <;> first | rfl | exact absurd h (by simp [Event.isMark])
  | renewed => exact absurd h (by simp [Event.isMark])
  | _ => rfl

theorem marks_unmarked (log : Log) {more : Log} (h : ∀ x ∈ more, x.2.isMark = false) :
    (log ++ more : Log).marks = log.marks := by
  rw [marks_append]
  induction more with
  | nil => rfl
  | cons x rest ih =>
      rw [List.foldl_cons, Marks.note_of_not_isMark _ (h x List.mem_cons_self)]
      exact ih fun y hy => h y (List.mem_cons_of_mem _ hy)

theorem renewalTimes_unmarked (log : Log) {more : Log} (h : ∀ x ∈ more, x.2.isMark = false) :
    (log ++ more : Log).renewalTimes = log.renewalTimes := by
  have hnone : more.renewalTimes = [] := by
    refine List.filterMap_eq_nil_iff.mpr fun x hx => ?_
    rw [Event.renewCall?_of_not_isMark (h x hx)]
    rfl
  rw [renewalTimes_append, hnone, List.append_nil]

end Log

theorem World.answersAmong_unmarked {answer : Answer Unit} {events : List Event}
    (h : ∀ e ∈ events, e.isMark = false) : World.answersAmong answer events = [] :=
  World.answersAmong_eq_nil fun e he => Event.renewCall?_of_not_isMark (h e he)

/-! ## The invariant -/

namespace Context

/-- The renewal `call` in flight: it is the last one that was issued, `answer` is the
answer to it, and it has not been overlooked. -/
structure InFlight (period : Duration) (now : Nat) (log : Log) (answers : List (Answer Unit))
    (call : Pending Unit) (answer : Answer Unit) : Prop where
  issue : call = .issue call.number call.since answer period
  since : call.since ≤ now
  early : now ≤ call.wake
  time : log.renewalTimes.getLast? = some call.since
  answered : answers.getLast? = some answer

/-- The last renewal that was issued has failed for the reason `cause`, and was issued at
the expiry or later. -/
structure TooLate (c : Context) (log : Log) (answers : List (Answer Unit)) (since : Nat)
    (answer : Answer Unit) (cause : ClientError) : Prop where
  time : log.renewalTimes.getLast? = some since
  answered : answers.getLast? = some answer
  outcome : answer.within c.period = .error cause
  late : toNanos (log.lastRenewal.getD c.started) + c.ttl.nanos ≤ toNanos since

/-- How the log bears out what the renewal task keeps. -/
structure Bookkeeping (now : Nat) (c : Context) (log : Log) (answers : List (Answer Unit)) :
    Prop where
  signalled : c.Signalled
  stopped : c.renewal.isOver = true → c.done = true
  counted : answers.length = log.renewalTimes.length
  issued : log.marks.issued = log.renewalTimes.getLast?
  expiry : ∀ expiry, c.renewal.expiry? = some expiry →
    expiry = toNanos (log.lastRenewal.getD c.started) + c.ttl.nanos
  inFlight : ∀ call, c.renewal.call? = some call →
    ∃ answer, InFlight c.period now log answers call answer
  failed : ∀ id cause, c.error = some (.renewFailed id cause) → id = c.session.id ∧
    ∃ since answer, c.TooLate log answers since answer cause

theorem InFlight.within {period : Duration} {now : Nat} {log : Log}
    {answers : List (Answer Unit)} {call : Pending Unit} {answer : Answer Unit}
    (h : InFlight period now log answers call answer)
    (hfits : period.secs < clockReachSecs) {cause : ClientError} {how : Event}
    (hfailed : call.Failed now period cause how) : answer.within period = .error cause := by
  have hearly := h.early
  rw [h.issue] at hfailed hearly
  exact hfailed.within hfits hearly

theorem InFlight.within_ok {period : Duration} {now : Nat} {log : Log}
    {answers : List (Answer Unit)} {call : Pending Unit} {answer : Answer Unit}
    (h : InFlight period now log answers call answer)
    (hfits : period.secs < clockReachSecs) (hready : call.isReady now = true)
    (houtcome : call.outcome = .ok ()) : answer.within period = .ok () := by
  have hearly := h.early
  rw [h.issue] at hready houtcome hearly
  exact (Pending.within_of_ready hfits hearly hready).trans houtcome

/-- The events of a failed renewal count for nothing that is kept. -/
theorem isMark_of_failed {call : Pending Unit} {now : Nat} {period : Duration}
    {cause : ClientError} {how : Event} (h : call.Failed now period cause how) :
    how.isMark = false := by
  cases h <;> rfl

/-- Events without marks leave the log as it was read. -/
theorem Bookkeeping.unmarked {now : Nat} {c c' : Context} {log : Log}
    {answers : List (Answer Unit)} (h : c.Bookkeeping now log answers)
    {answer : Answer Unit} {events : List Event} (hevents : ∀ e ∈ events, e.isMark = false)
    (hstarted : c'.started = c.started) (hsession : c'.session = c.session)
    (hsignalled : c'.Signalled) (hover : c'.renewal.isOver = true → c'.done = true)
    (hexpiry : ∀ expiry, c'.renewal.expiry? = some expiry → c.renewal.expiry? = some expiry)
    (hcall : ∀ call, c'.renewal.call? = some call → c.renewal.call? = some call)
    (hfailed : ∀ id cause, c'.error = some (.renewFailed id cause) → id = c.session.id ∧
      ∃ since answer, c.TooLate log answers since answer cause) :
    c'.Bookkeeping now (log ++ events.map (now, ·))
      (answers ++ World.answersAmong answer events) := by
  have httl := ttl_congr hsession
  have hperiod : c'.period = c.period := by unfold period; rw [httl]
  have hmore : ∀ x ∈ events.map (now, ·), x.2.isMark = false := List.forall_mem_map.mpr hevents
  have htimes := Log.renewalTimes_unmarked log hmore
  have hmarks := Log.marks_unmarked log hmore
  have hlast : (log ++ events.map (now, ·) : Log).lastRenewal = log.lastRenewal :=
    congrArg Log.Marks.succeeded hmarks
  rw [World.answersAmong_unmarked hevents, List.append_nil]
  refine ⟨hsignalled, hover, ?_, ?_, ?_, ?_, ?_⟩
  · rw [htimes]
    exact h.counted
  · rw [htimes, hmarks]
    exact h.issued
  · intro expiry hkept
    rw [hlast, hstarted, httl]
    exact h.expiry expiry (hexpiry expiry hkept)
  · intro call hkept
    obtain ⟨given, hissue, hsince, hearly, htime, hanswered⟩ := h.inFlight call (hcall call hkept)
    refine ⟨given, ?_, hsince, hearly, ?_, hanswered⟩
    · rw [hperiod]
      exact hissue
    · rw [htimes]
      exact htime
  · intro id cause herror
    obtain ⟨hid, since, given, htime, hanswered, houtcome, hlate⟩ := hfailed id cause herror
    refine ⟨hsession ▸ hid, since, given, ?_, hanswered, ?_, ?_⟩
    · rw [htimes]
      exact htime
    · rw [hperiod]
      exact houtcome
    · rw [hlast, hstarted, httl]
      exact hlate

/-- What is no renewal leaves the books as they are. -/
theorem Bookkeeping.apart {now : Nat} {c c' : Context} {log : Log}
    {answers : List (Answer Unit)} (h : c.Bookkeeping now log answers) {answer : Answer Unit}
    {events : List Event} (hapart : c.Apart events c') (hsession : c'.session = c.session)
    (hstarted : c'.started = c.started) (hsignalled : c'.Signalled)
    (hdone : c.done = true → c'.done = true) :
    c'.Bookkeeping now (log ++ events.map (now, ·))
      (answers ++ World.answersAmong answer events) := by
  have hmarks : ∀ e ∈ events, e.isMark = false :=
    fun e he => Event.isMark_of_not_isRenewal (hapart.events e he)
  refine h.unmarked hmarks hstarted hsession hsignalled ?_ ?_ ?_ fun id cause herror =>
    h.failed id cause (hapart.error id cause herror)
  · -- a task that has gone over in this move has done so because of the signal
    intro hover
    rcases hapart.renewal with hsame | ⟨_, hbefore | hended⟩
    · exact hdone (h.stopped (hsame ▸ hover))
    · exact hdone (h.stopped hbefore)
    · exact hended
  · intro expiry hkept
    rcases hapart.renewal with hsame | ⟨hover, _⟩
    · exact hsame ▸ hkept
    · rw [Renewal.expiry?_of_isOver hover] at hkept
      exact absurd hkept (by simp)
  · intro call hkept
    rcases hapart.renewal with hsame | ⟨hover, _⟩
    · exact hsame ▸ hkept
    · rw [Renewal.call?_of_isOver hover] at hkept
      exact absurd hkept (by simp)

/-- A renewal that is issued is the last one, and its answer the last answer. -/
theorem Bookkeeping.issue {s : Surroundings} {c : Context} {log : Log}
    {answers : List (Answer Unit)} (h : c.Bookkeeping s.now log answers) {tick expiry : Nat}
    (hrenewal : c.renewal = .waiting tick expiry) (hlive : c.error = none) (next : Nat) :
    Bookkeeping s.now
      { c with renewal := .renewing next expiry
                (.issue s.number s.now s.renewAnswer c.period) }
      (log ++ [(s.now, .issued s.number (.renew c.session.id))]) (answers ++ [s.renewAnswer]) := by
  have htimes : (log ++ [(s.now, .issued s.number (.renew c.session.id))]
      : Log).renewalTimes = log.renewalTimes ++ [s.now] := Log.renewalTimes_append ..
  have hmarks : (log ++ [(s.now, .issued s.number (.renew c.session.id))]
      : Log).marks = { log.marks with issued := some s.now } := Log.marks_append ..
  refine ⟨h.signalled, fun hover => absurd hover (by simp [Renewal.isOver]), ?_, ?_, ?_, ?_, ?_⟩
  · rw [htimes, List.length_append, List.length_append, h.counted]
    rfl
  · rw [htimes, hmarks, List.getLast?_concat]
  · -- issuing moves neither the expiry nor the last success
    intro kept hkept
    unfold Log.lastRenewal
    rw [hmarks]
    exact h.expiry kept (by rw [hrenewal]; exact hkept)
  · intro call hcall
    obtain rfl := Option.some.inj hcall
    refine ⟨s.renewAnswer, rfl, Nat.le_refl _, ?_, ?_, List.getLast?_concat⟩
    · rw [Pending.wake_issue c.period_fits]
      exact Nat.le_add_right _ _
    · rw [htimes, List.getLast?_concat]
      rfl
  · intro id cause herror
    exact absurd (hlive.symm.trans herror) (by simp)

/-- A success moves the expiry to one TTL after the call was issued, not after the answer. -/
theorem Bookkeeping.renewed {now : Nat} {c : Context} {log : Log}
    {answers : List (Answer Unit)} (h : c.Bookkeeping now log answers) {tick expiry : Nat}
    {call : Pending Unit} (hrenewal : c.renewal = .renewing tick expiry call)
    (hlive : c.error = none) :
    Bookkeeping now { c with renewal := .waiting tick (toNanos call.since + c.ttl.nanos) }
      (log ++ [(now, .answered call.number true), (now, .renewed)]) answers := by
  obtain ⟨answer, hflight⟩ := h.inFlight call (by rw [hrenewal]; rfl)
  have htimes : (log ++ [(now, Event.answered call.number true), (now, .renewed)]
      : Log).renewalTimes = log.renewalTimes :=
    (Log.renewalTimes_append ..).trans (List.append_nil _)
  have hmarks : (log ++ [(now, Event.answered call.number true), (now, .renewed)]
      : Log).marks = { log.marks with succeeded := log.marks.issued } := Log.marks_append ..
  refine ⟨h.signalled, fun hover => absurd hover (by simp [Renewal.isOver]), ?_, ?_, ?_, ?_, ?_⟩
  · rw [htimes]
    exact h.counted
  · rw [htimes, hmarks]
    exact h.issued
  · intro kept hkept
    unfold Log.lastRenewal
    rw [hmarks, h.issued, hflight.time]
    exact (Option.some.inj hkept).symm
  · intro _ hcall
    exact absurd hcall (by simp [Renewal.call?])
  · intro id cause herror
    exact absurd (hlive.symm.trans herror) (by simp)

/-- Each move keeps the books. -/
theorem Bookkeeping.move {s : Surroundings} {actor : Actor} {c c' : Context}
    {events : List Event} {log : Log} {answers : List (Answer Unit)}
    (h : c.Bookkeeping s.now log answers) (hmove : Move s actor c events c') :
    c'.Bookkeeping s.now (log ++ events.map (s.now, ·))
      (answers ++ World.answersAmong s.renewAnswer events) := by
  have hsignalled := hmove.signalled h.signalled
  have hsession := hmove.frame.1
  have hstarted := hmove.frame.2.2.2
  have hdone := hmove.done_of_done
  cases hmove.atRenewal with
  | apart hapart => exact h.apart hapart hsession hstarted hsignalled hdone
  | issued hrenewal hlive _ => exact h.issue hrenewal hlive _
  | renewed hrenewal hlive _ _ =>
      have hbooks := h.renewed hrenewal hlive
      simpa [World.answersAmong, Event.renewCall?] using hbooks
  | missed hrenewal hlive hfailed _ =>
      refine h.unmarked ?_ hstarted hsession hsignalled ?_ ?_ ?_ ?_
      · exact List.forall_mem_cons.mpr ⟨isMark_of_failed hfailed, by simp [Event.isMark]⟩
      · exact fun hover => absurd hover (by simp [Renewal.isOver])
      · rw [hrenewal]
        exact fun _ => id
      · exact fun _ hcall => absurd hcall (by simp [Renewal.call?])
      · exact fun _ _ herror => absurd (hlive.symm.trans herror) (by simp)
  | @expired tick expiry call cause how hrenewal hlive hfailed htime =>
      obtain ⟨answer, hflight⟩ := h.inFlight call (by rw [hrenewal]; rfl)
      refine h.unmarked ?_ hstarted hsession hsignalled (fun _ => rfl) ?_ ?_ ?_
      · exact List.forall_mem_cons.mpr ⟨isMark_of_failed hfailed, by simp [Event.isMark]⟩
      · exact fun _ hkept => absurd hkept (by simp [Renewal.expiry?])
      · exact fun _ hcall => absurd hcall (by simp [Renewal.call?])
      · -- the call was issued at the expiry or later, and the expiry is one TTL after the success
        intro id cause' herror
        obtain ⟨rfl, rfl⟩ := SessionError.renewFailed.inj (Option.some.inj herror)
        refine ⟨rfl, call.since, answer, hflight.time, hflight.answered,
          hflight.within c.period_fits hfailed, ?_⟩
        rw [← h.expiry expiry (by rw [hrenewal]; rfl)]
        exact htime

/-- The clock does not pass by a renewal in flight. -/
theorem Bookkeeping.pass {now t : Nat} {parentCancelled : Bool} {c : Context} {log : Log}
    {answers : List (Answer Unit)} (h : c.Bookkeeping now log answers)
    (hpassing : c.Passing now t parentCancelled) : c.Bookkeeping t log answers := by
  refine { h with inFlight := fun call hcall => ?_ }
  obtain ⟨answer, hflight⟩ := h.inFlight call hcall
  have hwake : c.renewalWake = some call.wake := by
    unfold renewalWake
    cases hrenewal : c.renewal with
    | renewing tick expiry other =>
        rw [hrenewal] at hcall
        rw [Option.some.inj hcall]
    | _ => rw [hrenewal] at hcall; exact absurd hcall (by simp [Renewal.call?])
  exact ⟨answer, { hflight with
    since := Nat.le_trans hflight.since (Nat.le_of_lt hpassing.later)
    early := hpassing.renewalWake _ hwake }⟩

theorem bookkeeping_invariant : Invariant fun now c log answers =>
    c.Bookkeeping now log answers where
  start now requested session id agent parent log _ hopening := by
    have hunmarked : ∀ x ∈ log, x.2.isMark = false :=
      fun x hx => Event.isMark_of_isOpening (hopening x hx)
    have hmarks : log.marks = {} := Log.marks_unmarked [] hunmarked
    have htimes : log.renewalTimes = [] := Log.renewalTimes_unmarked [] hunmarked
    refine ⟨rfl, fun hover => absurd hover (by simp [Context.start, Renewal.isOver]), ?_, ?_, ?_,
      ?_, ?_⟩
    · rw [htimes]
      rfl
    · rw [hmarks, htimes]
      rfl
    · intro expiry hkept
      unfold Log.lastRenewal
      rw [hmarks]
      exact (Option.some.inj hkept).symm
    · intro _ hcall
      exact absurd hcall (by simp [Context.start, Renewal.call?])
    · intro id cause herror
      exact absurd herror (by simp [Context.start])
  move s actor c c' events log answers h hmove := h.move hmove
  pass _ _ _ _ _ _ h hpassing := h.pass hpassing

end Context

end Tenure.Lifecycle
