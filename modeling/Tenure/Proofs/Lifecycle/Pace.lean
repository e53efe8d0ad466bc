import Mathlib.Tactic.Ring
import Tenure.Proofs.Lifecycle.Progress

/-!
# The pace of renewals

For a session whose TTL is three times `P` milliseconds the renewals of a live
context keep to the grid `started + k * P`, and there are never three misses in
a row among those that are settled. This holds whatever the agent does and
whatever happens around the context.

* `Streak` — misses in a row: the automaton that the renewal task refines;
* `Context.Pace` — the invariant that ties clock, tick, call in flight, expiry and
  streak together;
* `live_until` — a context is not live for long after its session has expired, and time
  does not stand still before it has ended.
-/

namespace Tenure.Lifecycle

variable {α : Type}

/-! ## Misses in a row -/

/-- Whether a call with a time limit comes to nothing. -/
def Answer.misses {β : Type} (a : Answer β) (limit : Duration) : Bool :=
  match a.within limit with
  | .ok _ => false
  | .error _ => true

theorem Answer.misses_of_ok {β : Type} {a : Answer β} {limit : Duration} {b : β}
    (h : a.within limit = .ok b) : a.misses limit = false := by
  unfold misses
  rw [h]

theorem Answer.misses_of_error {β : Type} {a : Answer β} {limit : Duration}
    {cause : ClientError} (h : a.within limit = .error cause) : a.misses limit = true := by
  unfold misses
  rw [h]

/-- Of the renewals that `missed` tells about, number `m` is the last one that succeeded,
counted from one (if `m` is zero, none did). Since then there have been fewer than three,
all of them missed, and before that never three misses in a row. -/
structure Streak (missed : List Bool) (m : Nat) : Prop where
  le : m ≤ missed.length
  last : ∀ k, m = k + 1 → missed[k]? = some false
  since : ∀ k, m ≤ k → k < missed.length → missed[k]? = some true
  few : missed.length < m + 3
  never : ∀ k, missed[k]? = some true → missed[k + 1]? = some true →
    missed[k + 2]? ≠ some true

namespace Streak

theorem nil : Streak [] 0 := ⟨by simp, by simp, by simp, by simp, by simp⟩

/-- A success starts a new streak. -/
theorem held {missed : List Bool} {m : Nat} (h : Streak missed m) :
    Streak (missed ++ [false]) (missed.length + 1) := by
  refine ⟨by simp, ?_, ?_, by simp, ?_⟩
  · intro k hk
    obtain rfl : k = missed.length := by omega
    simp
  · intro k hm hk
    simp at hk
    omega
  · intro k h₀ h₁ h₂
    by_cases hk : k + 2 < missed.length
    · rw [List.getElem?_append_left (by omega)] at h₀ h₁ h₂
      exact h.never k h₀ h₁ h₂
    -- the last of the three would be the success
    · have hlt := (List.getElem?_eq_some_iff.mp h₂).1
      simp only [List.length_append, List.length_singleton] at hlt
      obtain hk : k + 2 = missed.length := by omega
      rw [hk, List.getElem?_concat_length] at h₂
      exact absurd h₂ (by simp)

/-- The third miss in a row is the first time that there are three. -/
theorem third {missed : List Bool} {m : Nat} (h : Streak missed m) {k : Nat}
    (h₀ : (missed ++ [true])[k]? = some true) (h₁ : (missed ++ [true])[k + 1]? = some true)
    (h₂ : (missed ++ [true])[k + 2]? = some true) : k + 2 = missed.length ∧ m ≤ k := by
  have hlt := (List.getElem?_eq_some_iff.mp h₂).1
  simp only [List.length_append, List.length_singleton] at hlt
  have hlast : k + 2 = missed.length := by
    by_contra hne
    rw [List.getElem?_append_left (by omega)] at h₀ h₁ h₂
    exact h.never k h₀ h₁ h₂
  refine ⟨hlast, ?_⟩
  rw [List.getElem?_append_left (by omega)] at h₀ h₁
  -- number `m` succeeded, and the two before the third did not
  have hle := h.le
  have hnot : ∀ j, missed[j]? = some true → m ≠ j + 1 := by
    intro j hj hm
    rw [h.last j hm] at hj
    exact absurd hj (by simp)
  have hnot₀ := hnot k h₀
  have hnot₁ := hnot (k + 1) h₁
  omega

/-- A miss goes on with the streak, unless it is the third. -/
theorem miss {missed : List Bool} {m : Nat} (h : Streak missed m)
    (hfew : missed.length + 1 < m + 3) : Streak (missed ++ [true]) m := by
  have hle := h.le
  refine ⟨by simp; omega, ?_, ?_, by simpa using hfew, ?_⟩
  · intro k hk
    rw [List.getElem?_append_left (by omega)]
    exact h.last k hk
  · intro k hm hk
    simp only [List.length_append, List.length_singleton] at hk
    by_cases hlast : k < missed.length
    · rw [List.getElem?_append_left hlast]
      exact h.since k hm hlast
    · obtain rfl : k = missed.length := by omega
      simp
  · intro k h₀ h₁ h₂
    obtain ⟨_, _⟩ := h.third h₀ h₁ h₂
    omega

end Streak

/-! ## The invariant -/

theorem wakeAt_toNanos (now : Nat) : wakeAt (toNanos now) = now := by
  simp only [wakeAt, toNanos, nanosPerMilli]
  omega

theorem toNanos_add (a b : Nat) : toNanos (a + b) = toNanos a + toNanos b := Nat.mul_add ..

theorem toNanos_le_iff {a b : Nat} : toNanos a ≤ toNanos b ↔ a ≤ b := by
  simp only [toNanos, nanosPerMilli]
  omega

namespace Context

/-- Whether the renewals with these answers were missed. -/
def missed (c : Context) (answers : List (Answer Unit)) : List Bool :=
  answers.map (·.misses c.period)

/-- The answers to the renewals that are not in flight any more. -/
def settled (c : Context) (answers : List (Answer Unit)) : List (Answer Unit) :=
  if c.renewal.call?.isSome then answers.dropLast else answers

/-- How a live context with the period `P` keeps pace, and what has happened by the time
it is lost: the next tick is one period after the last one, and there have been as many
renewals as periods. -/
structure Pace (P now : Nat) (c : Context) (log : Log) (answers : List (Answer Unit)) : Prop where
  times : log.renewalTimes = (List.range answers.length).map fun k => c.started + (k + 1) * P
  streak : c.error = none → ∃ m, Streak (c.missed (c.settled answers)) m ∧
    log.lastRenewal.getD c.started = c.started + m * P
  waiting : ∀ tick expiry, c.error = none → c.renewal = .waiting tick expiry →
    tick = toNanos (c.started + (answers.length + 1) * P) ∧
      now ≤ c.started + (answers.length + 1) * P
  renewing : ∀ tick expiry call, c.error = none → c.renewal = .renewing tick expiry call →
    tick = toNanos (c.started + (answers.length + 1) * P) ∧
      call.since = c.started + answers.length * P
  failed : ∀ id cause, c.error = some (.renewFailed id cause) → ∃ m settled answer,
    answers = settled ++ [answer] ∧ Streak (c.missed settled) m ∧
      answers.length = m + 3 ∧ answer.within c.period = .error cause

theorem period_nanos {c : Context} {P : Nat} (httl : c.ttl.nanos = toNanos (3 * P)) :
    c.period.nanos = toNanos P := by
  simp only [period, Duration.nanos_divide, httl, toNanos, nanosPerMilli]
  omega

/-- A live context goes on renewing. -/
theorem Bookkeeping.renews {now : Nat} {c : Context} {log : Log}
    {answers : List (Answer Unit)} (h : c.Bookkeeping now log answers)
    (hlive : c.error = none) : c.renewal.isOver = false := by
  refine Bool.eq_false_iff.mpr fun hover => ?_
  have hdone := h.stopped hover
  rw [h.signalled.done_of_live hlive] at hdone
  exact absurd hdone Bool.false_ne_true

theorem settled_of_waiting {c : Context} {tick expiry : Nat}
    (h : c.renewal = .waiting tick expiry) (answers : List (Answer Unit)) :
    c.settled answers = answers := by
  unfold settled
  rw [h]
  rfl

theorem settled_of_renewing {c : Context} {tick expiry : Nat} {call : Pending Unit}
    (h : c.renewal = .renewing tick expiry call) (settled : List (Answer Unit))
    (answer : Answer Unit) : c.settled (settled ++ [answer]) = settled := by
  unfold Context.settled
  rw [h]
  exact List.dropLast_concat

/-- A renewal in flight has been issued less than a period ago. -/
theorem InFlight.early_le {c : Context} {P now : Nat} {log : Log}
    {answers : List (Answer Unit)} {call : Pending Unit} {answer : Answer Unit}
    (h : InFlight c.period now log answers call answer)
    (httl : c.ttl.nanos = toNanos (3 * P)) : now ≤ call.since + P := by
  have hearly := h.early
  rw [h.issue, Pending.wake_issue c.period_fits] at hearly
  have hsettles := answer.settles_le c.period
  rw [period_nanos httl, wakeAt_toNanos] at hsettles
  omega

/-- With a renewal in flight the answers are those that are settled and its own. -/
theorem InFlight.split {period : Duration} {now : Nat} {log : Log}
    {answers : List (Answer Unit)} {call : Pending Unit} {answer : Answer Unit}
    (h : InFlight period now log answers call answer) :
    ∃ settled, answers = settled ++ [answer] := by
  obtain ⟨settled, hsplit⟩ := List.getLast?_eq_some_iff.mp h.answered
  exact ⟨settled, hsplit⟩

/-- A tick is taken in time, so the next one is one period later. -/
theorem nextTick_of_due {c : Context} {P moment now : Nat}
    (httl : c.ttl.nanos = toNanos (3 * P)) (hdue : isDue (toNanos moment) now = true)
    (hnow : now ≤ moment) :
    now = moment ∧ c.nextTick (toNanos moment) now = toNanos (moment + P) := by
  have hmoment := toNanos_le_iff.mp (of_decide_eq_true hdue)
  obtain rfl := Nat.le_antisymm hnow hmoment
  refine ⟨rfl, ?_⟩
  unfold nextTick
  rw [if_neg (by simp only [tickTolerance]; omega), period_nanos httl, toNanos_add]

theorem missed_eq {c c' : Context} (hperiod : c'.period = c.period)
    (answers : List (Answer Unit)) : c'.missed answers = c.missed answers := by
  unfold missed
  rw [hperiod]

theorem missed_concat (c : Context) (settled : List (Answer Unit)) (answer : Answer Unit) :
    c.missed (settled ++ [answer]) = c.missed settled ++ [answer.misses c.period] := by
  unfold missed
  rw [List.map_append]
  rfl

@[simp] theorem length_missed (c : Context) (answers : List (Answer Unit)) :
    (c.missed answers).length = answers.length := List.length_map ..

/-- Events that are no renewals change nothing about the pace. -/
theorem Pace.apart {P now : Nat} {c c' : Context} {log : Log} {answers : List (Answer Unit)}
    (h : c.Pace P now log answers) {events : List Event} {answer : Answer Unit}
    (hapart : c.Apart events c') (hstarted : c'.started = c.started)
    (hperiod : c'.period = c.period) (hrenews : c'.error = none → c'.renewal.isOver = false) :
    c'.Pace P now (log ++ events.map (now, ·))
      (answers ++ World.answersAmong answer events) := by
  have hmarks : ∀ e ∈ events, e.isMark = false :=
    fun e he => Event.isMark_of_not_isRenewal (hapart.events e he)
  have hmore : ∀ x ∈ events.map (now, ·), x.2.isMark = false := List.forall_mem_map.mpr hmarks
  have hlast : (log ++ events.map (now, ·) : Log).lastRenewal = log.lastRenewal :=
    congrArg Log.Marks.succeeded (Log.marks_unmarked log hmore)
  have hsame : c'.error = none → c'.renewal = c.renewal := by
    intro hlive
    rcases hapart.renewal with hsame | ⟨hover, _⟩
    · exact hsame
    · rw [hrenews hlive] at hover
      exact absurd hover Bool.false_ne_true
  rw [World.answersAmong_unmarked hmarks, List.append_nil]
  refine ⟨?_, ?_, ?_, ?_, ?_⟩
  · rw [Log.renewalTimes_unmarked log hmore, hstarted]
    exact h.times
  · intro hlive
    obtain ⟨m, hstreak, hm⟩ := h.streak (hapart.live hlive)
    refine ⟨m, ?_, ?_⟩
    · unfold settled at hstreak ⊢
      rw [hsame hlive, missed_eq hperiod]
      exact hstreak
    · rw [hlast, hstarted]
      exact hm
  · intro tick expiry hlive hrenewal
    rw [hsame hlive] at hrenewal
    rw [hstarted]
    exact h.waiting tick expiry (hapart.live hlive) hrenewal
  · intro tick expiry call hlive hrenewal
    rw [hsame hlive] at hrenewal
    rw [hstarted]
    exact h.renewing tick expiry call (hapart.live hlive) hrenewal
  · intro id cause herror
    obtain ⟨m, settled, given, hsplit, hstreak, hlength, houtcome⟩ :=
      h.failed id cause (hapart.error id cause herror)
    refine ⟨m, settled, given, hsplit, ?_, hlength, ?_⟩
    · rw [missed_eq hperiod]
      exact hstreak
    · rw [hperiod]
      exact houtcome

/-- A renewal is issued at the tick, and not later. -/
theorem Pace.issued {P : Nat} {s : Surroundings} {c : Context} {log : Log}
    {answers : List (Answer Unit)} (h : c.Pace P s.now log answers)
    (httl : c.ttl.nanos = toNanos (3 * P)) {tick expiry : Nat}
    (hrenewal : c.renewal = .waiting tick expiry) (hlive : c.error = none)
    (hdue : isDue tick s.now = true) :
    Pace P s.now
      { c with renewal := .renewing (c.nextTick tick s.now) expiry
                (.issue s.number s.now s.renewAnswer c.period) }
      (log ++ [(s.now, .issued s.number (.renew c.session.id))]) (answers ++ [s.renewAnswer]) := by
  obtain ⟨rfl, hnow⟩ := h.waiting tick expiry hlive hrenewal
  -- the clock has not passed the tick, so it stands at it
  obtain ⟨hmoment, hnext⟩ := nextTick_of_due httl hdue hnow
  obtain ⟨m, hstreak, hm⟩ := h.streak hlive
  rw [settled_of_waiting hrenewal] at hstreak
  refine ⟨?_, ?_, ?_, ?_, ?_⟩
  · rw [Log.renewalTimes_append, h.times, List.length_append, List.length_singleton,
      List.range_succ, List.map_append]
    simp [Log.renewalTimes, Event.renewCall?, hmoment]
  · intro _
    refine ⟨m, ?_, ?_⟩
    · rw [settled_of_renewing rfl]
      exact hstreak
    · unfold Log.lastRenewal
      rw [Log.marks_append]
      exact hm
  · exact fun _ _ _ hother => absurd hother (by simp)
  · intro _ _ _ _ hsame
    obtain ⟨rfl, -, rfl⟩ := Renewal.renewing.inj hsame
    rw [hnext, List.length_append, List.length_singleton]
    refine ⟨congrArg toNanos ?_, hmoment⟩
    ring
  · exact fun _ _ herror => absurd (hlive.symm.trans herror) (by simp)

/-- A success moves the expiry and starts a new streak. -/
theorem Pace.renewed {P : Nat} {s : Surroundings} {c : Context} {log : Log}
    {answers : List (Answer Unit)} (h : c.Pace P s.now log answers)
    (hbooks : c.Bookkeeping s.now log answers) (httl : c.ttl.nanos = toNanos (3 * P))
    {tick expiry : Nat} {call : Pending Unit}
    (hrenewal : c.renewal = .renewing tick expiry call) (hlive : c.error = none)
    (hready : call.isReady s.now = true) (houtcome : call.outcome = .ok ()) :
    Pace P s.now { c with renewal := .waiting tick (toNanos call.since + c.ttl.nanos) }
      (log ++ [(s.now, .answered call.number true), (s.now, .renewed)]) answers := by
  obtain ⟨answer, hflight⟩ := hbooks.inFlight call (by rw [hrenewal]; rfl)
  obtain ⟨settled, rfl⟩ := hflight.split
  obtain ⟨htick, hsince⟩ := h.renewing tick expiry call hlive hrenewal
  obtain ⟨m, hstreak, hm⟩ := h.streak hlive
  rw [settled_of_renewing hrenewal] at hstreak
  have hearly := hflight.early_le httl
  refine ⟨?_, ?_, ?_, ?_, ?_⟩
  · rw [Log.renewalTimes_append, h.times]
    simp [Log.renewalTimes, Event.renewCall?]
  · intro _
    refine ⟨settled.length + 1, ?_, ?_⟩
    · rw [settled_of_waiting rfl]
      show Streak (c.missed (settled ++ [answer])) _
      -- the success is the last that is settled, so the streak starts with it
      rw [missed_concat, Answer.misses_of_ok (hflight.within_ok c.period_fits hready houtcome)]
      have hheld := hstreak.held
      rwa [length_missed] at hheld
    · have hmarks : (log ++ [(s.now, Event.answered call.number true), (s.now, .renewed)]
          : Log).marks = { log.marks with succeeded := log.marks.issued } := Log.marks_append ..
      unfold Log.lastRenewal
      rw [hmarks, hbooks.issued, hflight.time]
      rw [List.length_append] at hsince
      exact hsince
  · intro _ _ _ hsame
    obtain ⟨rfl, -⟩ := Renewal.waiting.inj hsame
    refine ⟨htick, ?_⟩
    show s.now ≤ c.started + _
    rw [Nat.succ_mul]
    omega
  · exact fun _ _ _ _ hother => absurd hother (by simp)
  · exact fun _ _ herror => absurd (hlive.symm.trans herror) (by simp)

/-- Whether the renewal in flight was issued before the expiry is whether there have been
fewer than three since the last one that succeeded. -/
theorem Pace.before_expiry {P now : Nat} {c : Context} {log : Log}
    {settled : List (Answer Unit)} {answer : Answer Unit} {m : Nat}
    (hbooks : c.Bookkeeping now log (settled ++ [answer]))
    (httl : c.ttl.nanos = toNanos (3 * P)) (hP : 0 < P) {tick expiry : Nat}
    {call : Pending Unit} (hrenewal : c.renewal = .renewing tick expiry call)
    (hsince : call.since = c.started + (settled ++ [answer]).length * P)
    (hm : log.lastRenewal.getD c.started = c.started + m * P) :
    toNanos call.since < expiry ↔ settled.length + 1 < m + 3 := by
  have hexpiry := hbooks.expiry expiry (by rw [hrenewal]; rfl)
  rw [hm, httl, ← toNanos_add] at hexpiry
  rw [hexpiry, hsince, List.length_append, List.length_singleton]
  have hgrid : c.started + m * P + 3 * P = c.started + (m + 3) * P := by ring
  rw [hgrid, ← Nat.not_le, toNanos_le_iff, Nat.add_le_add_iff_left,
    Nat.mul_le_mul_right_iff hP, Nat.not_le]

/-- A miss that is not the third goes on with the streak. -/
theorem Pace.missedOne {P : Nat} {s : Surroundings} {c : Context} {log : Log}
    {answers : List (Answer Unit)} (h : c.Pace P s.now log answers)
    (hbooks : c.Bookkeeping s.now log answers) (httl : c.ttl.nanos = toNanos (3 * P))
    (hP : 0 < P) {tick expiry : Nat} {call : Pending Unit} {cause : ClientError}
    {how : Event} (hrenewal : c.renewal = .renewing tick expiry call)
    (hlive : c.error = none) (hfailed : call.Failed s.now c.period cause how)
    (htime : toNanos call.since < expiry) :
    Pace P s.now { c with renewal := .waiting tick expiry }
      (log ++ [(s.now, how), (s.now, .renewalMissed cause (expiry - toNanos call.since))])
      answers := by
  obtain ⟨answer, hflight⟩ := hbooks.inFlight call (by rw [hrenewal]; rfl)
  obtain ⟨settled, rfl⟩ := hflight.split
  obtain ⟨htick, hsince⟩ := h.renewing tick expiry call hlive hrenewal
  obtain ⟨m, hstreak, hm⟩ := h.streak hlive
  rw [settled_of_renewing hrenewal] at hstreak
  have hearly := hflight.early_le httl
  have hfew := (Pace.before_expiry hbooks httl hP hrenewal hsince hm).mp htime
  have hmore : ∀ x ∈ [(s.now, how), (s.now, .renewalMissed cause (expiry - toNanos call.since))],
      x.2.isMark = false :=
    List.forall_mem_cons.mpr ⟨isMark_of_failed hfailed, by simp [Event.isMark]⟩
  refine ⟨?_, ?_, ?_, ?_, ?_⟩
  · rw [Log.renewalTimes_unmarked log hmore]
    exact h.times
  · intro _
    refine ⟨m, ?_, ?_⟩
    · rw [settled_of_waiting rfl]
      show Streak (c.missed (settled ++ [answer])) _
      rw [missed_concat, Answer.misses_of_error (hflight.within c.period_fits hfailed)]
      exact hstreak.miss (by rwa [length_missed])
    · unfold Log.lastRenewal
      rw [Log.marks_unmarked log hmore]
      exact hm
  · intro _ _ _ hsame
    obtain ⟨rfl, -⟩ := Renewal.waiting.inj hsame
    refine ⟨htick, ?_⟩
    show s.now ≤ c.started + _
    rw [Nat.succ_mul]
    omega
  · exact fun _ _ _ _ hother => absurd hother (by simp)
  · exact fun _ _ herror => absurd (hlive.symm.trans herror) (by simp)

/-- The third miss in a row is the last renewal. -/
theorem Pace.expired {P : Nat} {s : Surroundings} {c : Context} {log : Log}
    {answers : List (Answer Unit)} (h : c.Pace P s.now log answers)
    (hbooks : c.Bookkeeping s.now log answers) (httl : c.ttl.nanos = toNanos (3 * P))
    (hP : 0 < P) {tick expiry : Nat} {call : Pending Unit} {cause : ClientError}
    {how : Event} (hrenewal : c.renewal = .renewing tick expiry call)
    (hlive : c.error = none) (hfailed : call.Failed s.now c.period cause how)
    (htime : expiry ≤ toNanos call.since) :
    Pace P s.now { c.ended (.renewFailed c.session.id cause) with renewal := .tearingDown }
      (log ++ [(s.now, how), (s.now, .expired cause),
        (s.now, .ending (.renewFailed c.session.id cause))]) answers := by
  obtain ⟨answer, hflight⟩ := hbooks.inFlight call (by rw [hrenewal]; rfl)
  obtain ⟨settled, rfl⟩ := hflight.split
  obtain ⟨_, hsince⟩ := h.renewing tick expiry call hlive hrenewal
  obtain ⟨m, hstreak, hm⟩ := h.streak hlive
  rw [settled_of_renewing hrenewal] at hstreak
  -- issued at the expiry or later: it is the third since the last success, not an earlier one
  have hmany : ¬settled.length + 1 < m + 3 := by
    rw [← Pace.before_expiry hbooks httl hP hrenewal hsince hm]
    exact Nat.not_lt.mpr htime
  have hfew := hstreak.few
  rw [length_missed] at hfew
  have hmore : ∀ x ∈ [(s.now, how), (s.now, .expired cause),
      (s.now, .ending (.renewFailed c.session.id cause))], x.2.isMark = false :=
    List.forall_mem_cons.mpr ⟨isMark_of_failed hfailed, by simp [Event.isMark]⟩
  refine ⟨?_, ?_, ?_, ?_, ?_⟩
  · rw [Log.renewalTimes_unmarked log hmore]
    exact h.times
  · exact fun hnone => absurd hnone (by simp [ended])
  · exact fun _ _ hnone => absurd hnone (by simp [ended])
  · exact fun _ _ _ hnone => absurd hnone (by simp [ended])
  · intro id cause' herror
    obtain ⟨-, rfl⟩ := SessionError.renewFailed.inj (Option.some.inj herror)
    refine ⟨m, settled, answer, rfl, hstreak, ?_, hflight.within c.period_fits hfailed⟩
    rw [List.length_append, List.length_singleton]
    omega

/-- Each move keeps the pace. -/
theorem Pace.move {P : Nat} {s : Surroundings} {actor : Actor} {c c' : Context}
    {events : List Event} {log : Log} {answers : List (Answer Unit)}
    (h : c.Pace P s.now log answers) (hbooks : c.Bookkeeping s.now log answers)
    (httl : c.ttl.nanos = toNanos (3 * P)) (hP : 0 < P) (hmove : Move s actor c events c') :
    c'.Pace P s.now (log ++ events.map (s.now, ·))
      (answers ++ World.answersAmong s.renewAnswer events) := by
  have hafter := hbooks.move hmove
  have hanswers : (∀ e ∈ events, e.isMark = false) →
      answers ++ World.answersAmong s.renewAnswer events = answers := by
    intro hunmarked
    rw [World.answersAmong_unmarked hunmarked, List.append_nil]
  have hstarted := hmove.frame.2.2.2
  have hperiod := hmove.period_eq
  cases hmove.atRenewal with
  | apart hapart => exact h.apart hapart hstarted hperiod hafter.renews
  | issued hrenewal hlive hdue => exact h.issued httl hrenewal hlive hdue
  | renewed hrenewal hlive hready houtcome =>
      have hpace := h.renewed hbooks httl hrenewal hlive hready houtcome
      simpa [World.answersAmong, Event.renewCall?] using hpace
  | missed hrenewal hlive hfailed htime =>
      rw [hanswers (List.forall_mem_cons.mpr
        ⟨isMark_of_failed hfailed, by simp [Event.isMark]⟩)]
      exact h.missedOne hbooks httl hP hrenewal hlive hfailed htime
  | expired hrenewal hlive hfailed htime =>
      rw [hanswers (List.forall_mem_cons.mpr
        ⟨isMark_of_failed hfailed, by simp [Event.isMark]⟩)]
      exact h.expired hbooks httl hP hrenewal hlive hfailed htime

theorem Pace.start {P now : Nat} {c : Context} {log : Log} (hlog : ∀ x ∈ log, x.2.isMark = false)
    (httl : c.ttl.nanos = toNanos (3 * P)) (hstarted : c.started = now)
    (hlive : c.error = none)
    (hrenewal : c.renewal = .waiting (toNanos now + c.period.nanos) (toNanos now + c.ttl.nanos)) :
    c.Pace P now log [] := by
  have htimes : log.renewalTimes = [] := Log.renewalTimes_unmarked [] hlog
  have hmarks : log.marks = {} := Log.marks_unmarked [] hlog
  refine ⟨htimes, ?_, ?_, ?_, ?_⟩
  · refine fun _ => ⟨0, ?_, ?_⟩
    · rw [settled_of_waiting hrenewal]
      exact Streak.nil
    · unfold Log.lastRenewal
      rw [hmarks, Nat.zero_mul]
      rfl
  · intro tick expiry _ hsame
    rw [hrenewal, period_nanos httl, ← toNanos_add] at hsame
    obtain ⟨rfl, -⟩ := Renewal.waiting.inj hsame
    simp [hstarted]
  · exact fun _ _ _ _ hother => absurd (hrenewal.symm.trans hother) (by simp)
  · exact fun _ _ herror => absurd (hlive.symm.trans herror) (by simp)

/-- The clock does not pass by a tick. -/
theorem Pace.pass {P now t : Nat} {parentCancelled : Bool} {c : Context} {log : Log}
    {answers : List (Answer Unit)} (h : c.Pace P now log answers)
    (hpassing : c.Passing now t parentCancelled) : c.Pace P t log answers := by
  refine { h with waiting := fun tick expiry hlive hrenewal => ?_ }
  obtain ⟨rfl, _⟩ := h.waiting tick expiry hlive hrenewal
  refine ⟨rfl, ?_⟩
  have hwake := hpassing.renewalWake (wakeAt (toNanos _)) (by unfold renewalWake; rw [hrenewal])
  rwa [wakeAt_toNanos] at hwake

/-- Every context keeps its books, and it keeps pace if its TTL is three whole periods. -/
theorem pace_invariant {P : Nat} (hP : 0 < P) : Invariant fun now c log answers =>
    c.Bookkeeping now log answers ∧
      (c.ttl.nanos = toNanos (3 * P) → c.Pace P now log answers) where
  start now requested session id agent parent log hresolve hopening :=
    ⟨bookkeeping_invariant.start now requested session id agent parent log hresolve hopening,
      fun httl => Pace.start (fun x hx => Event.isMark_of_isOpening (hopening x hx)) httl rfl
        rfl rfl⟩
  move _ _ _ _ _ _ _ h hmove :=
    ⟨h.1.move hmove, fun httl => by
      rw [hmove.ttl_eq] at httl
      exact (h.2 httl).move h.1 httl hP hmove⟩
  pass _ _ _ _ _ _ h hpassing := ⟨h.1.pass hpassing, fun httl => (h.2 httl).pass hpassing⟩

/-- A live context that keeps pace has not been without a successful renewal for long. -/
theorem Pace.live_le {P now : Nat} {c : Context} {log : Log} {answers : List (Answer Unit)}
    (h : c.Pace P now log answers) (hbooks : c.Bookkeeping now log answers)
    (httl : c.ttl.nanos = toNanos (3 * P)) (hlive : c.error = none) :
    now ≤ log.lastRenewal.getD c.started + 3 * P + P := by
  obtain ⟨m, hstreak, hm⟩ := h.streak hlive
  rw [hm]
  cases hrenewal : c.renewal with
  | waiting tick expiry =>
      obtain ⟨_, hnow⟩ := h.waiting tick expiry hlive hrenewal
      rw [settled_of_waiting hrenewal] at hstreak
      have hfew := hstreak.few
      rw [length_missed] at hfew
      -- at most three have been settled since, and the next tick is one period on
      have hgrid := Nat.mul_le_mul_right P (show answers.length + 1 ≤ m + 4 by omega)
      have hsum : (m + 4) * P = m * P + 3 * P + P := by ring
      omega
  | renewing tick expiry call =>
      obtain ⟨answer, hflight⟩ := hbooks.inFlight call (by rw [hrenewal]; rfl)
      obtain ⟨settled, rfl⟩ := hflight.split
      obtain ⟨_, hsince⟩ := h.renewing tick expiry call hlive hrenewal
      rw [settled_of_renewing hrenewal] at hstreak
      have hfew := hstreak.few
      have hearly := hflight.early_le httl
      rw [length_missed] at hfew
      rw [List.length_append, List.length_singleton] at hsince
      -- the one in flight is at most the third, and it has been for no more than a period
      have hgrid := Nat.mul_le_mul_right P (show settled.length + 1 ≤ m + 3 by omega)
      have hsum : (m + 3) * P = m * P + 3 * P := by ring
      omega
  | tearingDown => exact absurd (hbooks.renews hlive) (by rw [hrenewal]; simp [Renewal.isOver])
  | exited => exact absurd (hbooks.renews hlive) (by rw [hrenewal]; simp [Renewal.isOver])

end Context

namespace World

theorem Reachable.live_le {w : World α} (hw : w.Reachable) {i : Nat} {c : Context}
    (hc : w.context? i = some c) {P : Nat} (hP : 0 < P) (httl : c.ttl.nanos = toNanos (3 * P))
    (hlive : c.error = none) : w.now ≤ (w.log i).lastRenewal.getD c.started + 3 * P + P := by
  obtain ⟨hbooks, hpace⟩ := (Context.pace_invariant hP).holds hw hc
  exact (hpace httl).live_le hbooks httl hlive

/-- Where the clock is past the time that a renewal gives, the context has ended or a later
renewal has succeeded. -/
theorem Reachable.over_of_late {w : World α} (hw : w.Reachable) {i : Nat} {c : Context}
    (hc : w.context? i = some c) {P : Nat} (hP : 0 < P) (httl : c.ttl.nanos = toNanos (3 * P))
    {since : Nat} {more : List (Action α)} (hlate : since + 3 * P + P < (w.run more).now) :
    ∃ c', (w.run more).context? i = some c' ∧ (c'.error.isSome = true ∨
      since < ((w.run more).log i).lastRenewal.getD c'.started) := by
  obtain ⟨c', hc', hsame⟩ := hw.keeps hc (P := fun c' => c'.ttl = c.ttl)
    (fun hmove h => hmove.ttl_eq.trans h) rfl more
  refine ⟨c', hc', ?_⟩
  cases hlive : c'.error with
  | some e => exact .inl rfl
  | none =>
      have hnow := (hw.run more).live_le hc' hP (hsame ▸ httl) hlive
      exact .inr (by omega)

/-- **The end comes in time.** Whatever the agent does and whatever happens around it, no
context with a TTL of three periods is live at a time later than one TTL and one period
after its last successful renewal was issued, or after it began if none was. The clock
does not stop short of that time either: events do take a course in which it goes on, and
in every such course, by then the context has ended or a renewal that was issued later has
succeeded. -/
theorem live_until {w : World α} (hw : w.Reachable) {i : Nat} {c : Context}
    (hc : w.context? i = some c) {P : Nat} (hP : 0 < P)
    (httl : c.ttl.nanos = 3 * (P * nanosPerMilli)) (hlive : c.error = none) :
    w.now ≤ (w.log i).lastRenewal.getD c.started + 3 * P + P ∧
      Nonempty (Course w) ∧
      ∀ course : Course w, ∃ n c', (course.world n).context? i = some c' ∧
        (course.world n).now ≤ (w.log i).lastRenewal.getD c.started + 3 * P + P ∧
        (c'.error.isSome = true ∨ (w.log i).lastRenewal.getD c.started <
          ((course.world n).log i).lastRenewal.getD c'.started) := by
  have hthree : c.ttl.nanos = toNanos (3 * P) := by
    rw [httl, toNanos]
    ring
  have hnow := hw.live_le hc hP hthree hlive
  refine ⟨hnow, ⟨.drift hw⟩, fun course => ?_⟩
  obtain ⟨n, hearly, c', hc', hover⟩ := course.exists_by hnow
    (P := fun u => ∃ c', u.context? i = some c' ∧ (c'.error.isSome = true ∨
      (w.log i).lastRenewal.getD c.started < (u.log i).lastRenewal.getD c'.started))
    (fun n hlate => by
      rw [course.world_eq_run] at hlate ⊢
      exact hw.over_of_late hc hP hthree hlate)
    fun _ _ h => h
  exact ⟨n, c', hc', hearly, hover⟩

/-- The last moment of a context none of whose renewals is answered. -/
def overdue : World Unit :=
  (untouched [.scripted "s-1" (fun _ => ⟨none, .ok ()⟩) ⟨some 0, .ok ()⟩] {} 0).run
    [.begin 0 0 { lockDelay := some (.ofMillis 20), ttl := some (.ofMillis 300) },
      .poll (.opening 0), .advance 100, .poll (.renewal 0), .advance 200, .poll (.renewal 0),
      .poll (.renewal 0), .advance 300, .poll (.renewal 0), .poll (.renewal 0), .advance 400]

theorem live_until_of_overdue :
    ∃ c, overdue.context? 0 = some c ∧ c.error = none ∧ overdue.now = 400 ∧
      overdue.now ≤ (overdue.log 0).lastRenewal.getD c.started + 3 * 100 + 100 ∧
      Nonempty (Course overdue) ∧
      ∀ course : Course overdue, ∃ n c', (course.world n).context? 0 = some c' ∧
        (course.world n).now ≤ (overdue.log 0).lastRenewal.getD c.started + 3 * 100 + 100 ∧
        (c'.error.isSome = true ∨ (overdue.log 0).lastRenewal.getD c.started <
          ((course.world n).log 0).lastRenewal.getD c'.started) := by
  have hc : overdue.context? 0 = some ((overdue.context? 0).get (by decide +kernel)) :=
    (Option.some_get _).symm
  have httl : ((overdue.context? 0).get (by decide +kernel)).ttl.nanos =
      3 * (100 * nanosPerMilli) := by decide +kernel
  have hlive : ((overdue.context? 0).get (by decide +kernel)).error = none := by decide +kernel
  obtain ⟨hnow, hgoes, hends⟩ :=
    live_until (w := overdue) (reachable_run _ _ _ _) hc (by decide) httl hlive
  exact ⟨_, hc, hlive, by decide +kernel, hnow, hgoes, hends⟩

end World

end Tenure.Lifecycle
