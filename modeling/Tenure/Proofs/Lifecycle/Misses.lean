import Mathlib.Order.Bounds.Basic
import Tenure.Proofs.Lifecycle.Overlap
import Tenure.Proofs.Lifecycle.Script
import Tenure.Proofs.Lifecycle.Tally

/-!
# Three misses in a row

For a session whose TTL is three times `P` milliseconds, a context that is left alone
lives exactly until three renewals in a row are missed. This module follows such a
context along an endless run, for any sequence of answers to its renewals.

* `ThirdMiss` — a renewal is missed, and so were the two before it;
* `EndedAt` — how such a context has ended;
* `Course.ends_at_third_miss` — renewals keep to the grid, do not overlap, and the
  context ends at the first third miss if there is one; every session can be left
  alone and answered in every way.
-/

namespace Tenure.Lifecycle

variable {α : Type}

/-! ## Sequences of answers -/

/-- Number `k` is the third of three renewals in a row that are missed. The answers are
counted from one. -/
def ThirdMiss (limit : Duration) (answers : Nat → Answer Unit) (k : Nat) : Prop :=
  3 ≤ k ∧ (answers (k - 2)).misses limit = true ∧ (answers (k - 1)).misses limit = true ∧
    (answers k).misses limit = true

/-- Which of the first `n` renewals are missed. -/
def firstMisses (limit : Duration) (answers : Nat → Answer Unit) (n : Nat) : List Bool :=
  (List.range n).map fun k => (answers (k + 1)).misses limit

section Sequences

variable {limit : Duration} {answers : Nat → Answer Unit} {n m k : Nat}

theorem firstMisses_succ : firstMisses limit answers (n + 1) =
    firstMisses limit answers n ++ [(answers (n + 1)).misses limit] := by
  unfold firstMisses
  rw [List.range_succ, List.map_append]
  rfl

theorem getElem?_firstMisses (h : k < n) :
    (firstMisses limit answers n)[k]? = some ((answers (k + 1)).misses limit) := by
  unfold firstMisses
  rw [List.getElem?_map, List.getElem?_range h]
  rfl

@[simp] theorem length_firstMisses : (firstMisses limit answers n).length = n := by
  simp [firstMisses]

/-- As long as a streak goes on there has been no third miss. -/
theorem Streak.lt_of_thirdMiss (h : Streak (firstMisses limit answers n) m)
    (hk : ThirdMiss limit answers k) : n < k := by
  obtain ⟨hthree, h₀, h₁, h₂⟩ := hk
  by_contra hle
  obtain ⟨j, rfl⟩ : ∃ j, k = j + 3 := ⟨k - 3, by omega⟩
  refine h.never j ?_ ?_ ?_
  · rw [getElem?_firstMisses (by omega)]
    exact congrArg some h₀
  · rw [getElem?_firstMisses (by omega)]
    exact congrArg some h₁
  · rw [getElem?_firstMisses (by omega)]
    exact congrArg some h₂

/-- A miss after two misses in a row is the first third miss. -/
theorem Streak.isLeast (h : Streak (firstMisses limit answers n) m) (hn : n + 1 = m + 3)
    (hlast : (answers (n + 1)).misses limit = true) :
    IsLeast {k | ThirdMiss limit answers k} (n + 1) := by
  obtain rfl : n = m + 2 := by omega
  have hsince : ∀ j, m ≤ j → j < m + 2 → (answers (j + 1)).misses limit = true := by
    intro j hm hj
    have hmissed := h.since j hm (by rwa [length_firstMisses])
    rw [getElem?_firstMisses hj] at hmissed
    exact Option.some.inj hmissed
  refine ⟨⟨by omega, ?_, ?_, hlast⟩, fun k hk => h.lt_of_thirdMiss hk⟩
  · exact hsince m (Nat.le_refl m) (by omega)
  · exact hsince (m + 1) (by omega) (by omega)

theorem Begins.missed {given : List (Answer Unit)} (h : Begins answers given) (c : Context) :
    c.missed given = firstMisses c.period answers given.length := by
  refine List.ext_getElem? fun k => ?_
  unfold Context.missed
  rw [List.getElem?_map]
  by_cases hk : k < given.length
  · rw [getElem?_firstMisses hk, List.getElem?_eq_getElem hk,
      h k given[k] (List.getElem?_eq_getElem hk)]
    rfl
  · rw [List.getElem?_eq_none (by simpa using hk), List.getElem?_eq_none (by simpa using hk)]
    rfl

end Sequences

/-! ## One context -/

namespace Context

theorem period_eq_ofMillis {c : Context} {P : Nat} (httl : c.ttl.nanos = toNanos (3 * P)) :
    c.period = .ofMillis P := by
  have hperiod := period_nanos httl
  have hfits : Duration.ofNanos? (P * nanosPerMilli) = some c.period := by
    rw [Duration.ofNanos?_eq_some_iff, hperiod, toNanos, Nat.mul_comm]
  unfold Duration.ofMillis Duration.ofNanos
  rw [hfits]
  rfl

variable {P now : Nat} {c : Context} {log : Log} {given : List (Answer Unit)}
  {answers : Nat → Answer Unit}

/-- A live context has not had a third miss among the renewals that are settled, and it is
at most one period on from the last one that was issued. -/
theorem Pace.of_live (h : c.Pace P now log given) (hbooks : c.Bookkeeping now log given)
    (httl : c.ttl.nanos = toNanos (3 * P)) (hbegins : Begins answers given)
    (hlive : c.error = none) : now ≤ c.started + (given.length + 1) * P ∧
      ∀ k, ThirdMiss c.period answers k → given.length ≤ k := by
  obtain ⟨m, hstreak, _⟩ := h.streak hlive
  cases hrenewal : c.renewal with
  | waiting tick expiry =>
      rw [settled_of_waiting hrenewal, hbegins.missed] at hstreak
      exact ⟨(h.waiting tick expiry hlive hrenewal).2,
        fun k hk => Nat.le_of_lt (hstreak.lt_of_thirdMiss hk)⟩
  | renewing tick expiry call =>
      obtain ⟨answer, hflight⟩ := hbooks.inFlight call (by rw [hrenewal]; rfl)
      obtain ⟨settled, rfl⟩ := hflight.split
      obtain ⟨_, hsince⟩ := h.renewing tick expiry call hlive hrenewal
      have hearly := hflight.early_le httl
      rw [settled_of_renewing hrenewal, hbegins.split.1.missed] at hstreak
      refine ⟨?_, fun k hk => ?_⟩
      · rw [Nat.succ_mul]
        omega
      · rw [List.length_append, List.length_singleton]
        exact hstreak.lt_of_thirdMiss hk
  | tearingDown => exact absurd (hbooks.renews hlive) (by rw [hrenewal]; simp [Renewal.isOver])
  | exited => exact absurd (hbooks.renews hlive) (by rw [hrenewal]; simp [Renewal.isOver])

/-- A context that was lost was lost at the first third miss. -/
theorem Pace.of_lost (h : c.Pace P now log given) (hbegins : Begins answers given)
    {id : String} {cause : ClientError} (herror : c.error = some (.renewFailed id cause)) :
    IsLeast {k | ThirdMiss c.period answers k} given.length ∧
      (answers given.length).within c.period = .error cause := by
  obtain ⟨m, settled, answer, rfl, hstreak, hlength, houtcome⟩ := h.failed id cause herror
  obtain ⟨hsettled, rfl⟩ := hbegins.split
  rw [hsettled.missed] at hstreak
  rw [List.length_append, List.length_singleton] at hlength ⊢
  exact ⟨hstreak.isLeast hlength (Answer.misses_of_error houtcome), houtcome⟩

end Context

/-! ## Courses -/

/-- How the context of attempt `i` has ended: at the renewal that was the first third miss,
as soon as it was known, because of it, and with every renewal counted. -/
structure EndedAt (P : Nat) (answers : Nat → Answer Unit) (w : World α) (i : Nat)
    (c : Context) (e : SessionError) (k : Nat) : Prop where
  least : IsLeast {k | ThirdMiss (.ofMillis P) answers k} k
  reason : ∃ cause, (answers k).within (.ofMillis P) = .error cause ∧
    e = .renewFailed c.session.id cause
  calls : (w.log i).renewalTimes.length = k
  time : (c.started + k * P + (answers k).settles (.ofMillis P), .ending e) ∈ w.log i
  tally : (w.log i).metrics.tally =
    ⟨(firstMisses (.ofMillis P) answers k).count false,
      (firstMisses (.ofMillis P) answers k).count true - 1, 1⟩
  metrics : w.attempts.length = 1 → w.metrics.tally = (w.log i).metrics.tally

namespace Course

section LeftAlone

variable {start : World α} {course : Course start} {i n : Nat} {c : Context} {P : Nat}
  {answers : Nat → Answer Unit} (hstart : start.Reachable)
  (hanswers : course.Answered i answers) (hc : (course.world n).context? i = some c)
  (hP : 0 < P) (httl : c.ttl.nanos = toNanos (3 * P))

include hstart hc

/-- The context is there at some time from `moment` on. -/
theorem context_at (moment : Nat) :
    ∃ m c', (course.world m).context? i = some c' ∧ c'.session = c.session ∧
      c'.started = c.started ∧ moment ≤ (course.world m).now := by
  obtain ⟨m, hm⟩ := course.later n moment
  obtain ⟨c', hc', hsession, hstarted⟩ := context_later hstart hc m
  exact ⟨n + m, c', hc', hsession, hstarted, hm⟩

include hP httl

theorem renewalTimes_eq : ((course.world n).log i).renewalTimes =
    (List.range ((course.world n).log i).renewalTimes.length).map
      fun k => c.started + (k + 1) * P := by
  obtain ⟨hbooks, hpace⟩ := (Context.pace_invariant hP).holds (course.reachable hstart n) hc
  rw [← hbooks.counted]
  exact (hpace httl).times

include hanswers

/-- As long as a context is live, the next renewal is at most one period away, and there
has been no third miss among those that are settled. -/
theorem live_le (hlive : c.error = none) :
    (course.world n).now ≤
        c.started + (((course.world n).log i).renewalTimes.length + 1) * P ∧
      ∀ k, ThirdMiss (.ofMillis P) answers k →
        ((course.world n).log i).renewalTimes.length ≤ k := by
  have hw := course.reachable hstart n
  obtain ⟨hbooks, hpace⟩ := (Context.pace_invariant hP).holds hw hc
  have hlive := (hpace httl).of_live hbooks httl (hanswers n) hlive
  rwa [hbooks.counted, Context.period_eq_ofMillis httl] at hlive

/-- A third miss ends the context. -/
theorem ends_of_thirdMiss {k : Nat} (hk : ThirdMiss (.ofMillis P) answers k) :
    ∃ m c', (course.world m).context? i = some c' ∧ c'.error.isSome = true := by
  -- one period after renewal `k`, a live context would have had the third miss
  obtain ⟨m, c', hc', hsession, hstarted, hm⟩ :=
    context_at hstart hc (c.started + (k + 1) * P + 1)
  rw [← Context.ttl_congr hsession] at httl
  refine ⟨m, c', hc', ?_⟩
  cases herror : c'.error with
  | some e => rfl
  | none =>
      obtain ⟨hnow, hfew⟩ := live_le hstart hanswers hc' hP httl herror
      have hgrid := Nat.mul_le_mul_right P (Nat.add_le_add_right (hfew k hk) 1)
      omega

variable (hcallers : start.callers = []) (hnone : start.context? i = none)
  (hspared : course.Spares i)

include hcallers hnone hspared

/-- A context that nobody ends has ended at the first third miss. -/
theorem endedAt {e : SessionError} (he : c.error = some e) :
    EndedAt P answers (course.world n) i c e
      ((course.world n).log i).renewalTimes.length := by
  have hw := course.reachable hstart n
  obtain ⟨cause, rfl⟩ : ∃ cause, e = .renewFailed c.session.id cause := by
    have hactions : ∀ a ∈ course.actions n, a.spares i = true :=
      List.forall_mem_map.mpr fun k _ => hspared.actions k
    have hparent := hspared.parent n c hc
    rw [course.world_eq_run n] at hc hparent
    exact World.spared_error hstart hcallers hnone hactions hc hparent he
  obtain ⟨hbooks, hpace⟩ := (Context.pace_invariant hP).holds hw hc
  have hlost := (Context.counted_invariant.holds hw hc).2.lost _ _ he
  obtain ⟨settled, answer, hsplit, htally, since, hsince, hending⟩ := hlost
  obtain ⟨hleast, houtcome⟩ := (hpace httl).of_lost (hanswers n) he
  have htimes := renewalTimes_eq hstart hc hP httl
  have hbegins := hanswers n
  have hone := Context.period_eq_ofMillis httl
  rw [hbooks.counted, hone] at hleast houtcome
  have hlength : ((course.world n).log i).renewalTimes.length = settled.length + 1 := by
    rw [← hbooks.counted, hsplit, List.length_append, List.length_singleton]
  rw [hsplit] at hbegins
  obtain ⟨hsettled, rfl⟩ := hbegins.split
  refine ⟨hleast, ⟨cause, houtcome, rfl⟩, rfl, ?_, ?_, ?_⟩
  · -- the last renewal was issued on the grid
    rw [htimes, hlength, List.range_succ, List.map_append, List.map_singleton,
      List.getLast?_concat] at hsince
    rw [hlength, Option.some.inj hsince, ← hone]
    exact hending
  · rw [htally, hsettled.missed, hone, hlength, firstMisses_succ]
    have hlast := hleast.1.2.2.2
    rw [hlength] at hlast
    rw [hlast]
    simp [Tally.of]
  · intro hsingle
    have hzero : i = 0 := by
      have hlt := World.lt_of_context? hc
      omega
    rw [hw.metrics_of_single hsingle, hzero]

/-- Renewal `k` is issued unless the context has ended before. -/
theorem exists_issued {k : Nat} (hk : 0 < k)
    (hgoing : ∀ j, j < k → ¬ThirdMiss (.ofMillis P) answers j) :
    ∃ m, ((course.world m).log i).renewalTimes[k - 1]? = some (c.started + k * P) := by
  obtain ⟨m, c', hc', hsession, hstarted, hm⟩ :=
    context_at hstart hc (c.started + k * P + 1)
  rw [← Context.ttl_congr hsession] at httl
  have hissued : k ≤ ((course.world m).log i).renewalTimes.length := by
    by_contra hless
    cases herror : c'.error with
    | none =>
        -- the renewal after those that were issued would be overdue
        have hnow := (live_le hstart hanswers hc' hP httl herror).1
        have hgrid := Nat.mul_le_mul_right P (Nat.succ_le_of_lt (Nat.not_le.mp hless))
        rw [Nat.succ_eq_add_one] at hgrid
        omega
    | some e =>
        have hended := endedAt hstart hanswers hc' hP httl hcallers hnone hspared herror
        exact hgoing _ (Nat.not_le.mp hless) hended.least.1
  refine ⟨m, ?_⟩
  rw [renewalTimes_eq hstart hc' hP httl, List.getElem?_map, List.getElem?_range (by omega),
    Option.map_some, Nat.sub_add_cancel hk, hstarted]

end LeftAlone

/-- **Three misses in a row.** Let a context with a TTL of three periods be left alone, and
let its renewals be answered in any way. Then renewal `k` is issued `k` periods after the
start, and it is issued unless the context has ended by then; no two renewals overlap; and
the context ends if and only if three renewals in a row are missed, at the first such, with
the error of the last renewal. There are such courses for every session that can be held at
all and for every sequence of answers. -/
theorem ends_at_third_miss {agents : List Agent} {scopes : Scopes} {now : Nat}
    (course : Course (World.untouched agents scopes now : World α)) {i : Nat}
    (hspared : course.Spares i) {answers : Nat → Answer Unit}
    (hanswers : course.Answered i answers) {n : Nat} {c : Context}
    (hc : (course.world n).context? i = some c) {P : Nat} (hP : 0 < P)
    (httl : c.ttl.nanos = 3 * (P * nanosPerMilli)) :
    ((course.world n).log i).renewalTimes =
        (List.range ((course.world n).log i).renewalTimes.length).map
          (fun k => c.started + (k + 1) * P) ∧
      (∀ k, 0 < k → (∀ j, j < k → ¬ThirdMiss (.ofMillis P) answers j) →
        ∃ m, ((course.world m).log i).renewalTimes[k - 1]? = some (c.started + k * P)) ∧
      ((course.world n).log i).renewalsInFlight.length ≤ 1 ∧
      (∀ e, c.error = some e → ∃ k, EndedAt P answers (course.world n) i c e k) ∧
      ((∃ m c', (course.world m).context? i = some c' ∧ c'.error.isSome = true) ↔
        ∃ k, ThirdMiss (.ofMillis P) answers k) ∧
      (∀ (requested : Session) {session : Session} {config : SessionConfig},
        requested.resolve = .ok session → session.wire? = some config →
          ∀ id others began, Occurs α { session with id := id } others began) := by
  have hstart : (World.untouched agents scopes now : World α).Reachable := .start agents scopes now
  have hthree : c.ttl.nanos = toNanos (3 * P) := by
    rw [httl, toNanos]
    ring
  have hended : ∀ {m : Nat} {c' : Context} {e : SessionError},
      (course.world m).context? i = some c' → c'.session = c.session → c'.error = some e →
      ∃ k, EndedAt P answers (course.world m) i c' e k := by
    intro m c' e hc' hsession he
    rw [← Context.ttl_congr hsession] at hthree
    exact ⟨_, endedAt hstart hanswers hc' hP hthree rfl rfl hspared he⟩
  refine ⟨renewalTimes_eq hstart hc hP hthree, fun k hk hgoing => ?_,
    (course.reachable hstart n).renewals_apart hc, fun e he => hended hc rfl he, ⟨?_, ?_⟩,
    fun requested _ _ hresolve hwire => exists_answered requested hresolve hwire⟩
  · exact exists_issued hstart hanswers hc hP hthree rfl rfl hspared hk hgoing
  · rintro ⟨m, c', hc', herror⟩
    obtain ⟨e, he⟩ := Option.isSome_iff_exists.mp herror
    obtain ⟨k, hk⟩ := hended hc' (context_same hstart hc hc').1 he
    exact ⟨k, hk.least.1⟩
  · rintro ⟨k, hk⟩
    exact ends_of_thirdMiss hstart hanswers hc hP hthree hk

/-- An agent that refuses the first renewal, grants the second one, and answers none after
that. -/
def fading : Nat → Answer Unit
  | 1 => ⟨some 20, .error .network⟩
  | 2 => ⟨some 100, .ok ()⟩
  | _ => ⟨none, .ok ()⟩

/-- A session with a TTL of three times 100 ms, held with that agent. -/
def forsaken : Course (World.untouched
    [.scripted "s-1" (fun k => fading (k + 1)) ⟨some 0, .ok ()⟩] {} 0 : World Unit) :=
  scripted Unit { lockDelay := some (.ofMillis 20), ttl := some (.ofMillis 300) } "s-1" fading
    ⟨some 0, .ok ()⟩ 0

theorem ends_at_third_miss_of_forsaken : ∃ n c e, (forsaken.world n).context? 0 = some c ∧
    c.error = some e ∧ EndedAt 100 fading (forsaken.world n) 0 c e 5 := by
  have hc : (forsaken.world 2).context? 0 =
      some (((forsaken.world 2).context? 0).get (by decide +kernel)) :=
    (Option.some_get _).symm
  have httl : (((forsaken.world 2).context? 0).get (by decide +kernel)).ttl.nanos =
      3 * (100 * nanosPerMilli) := by decide +kernel
  have hfifth : ThirdMiss (.ofMillis 100) fading 5 := by
    refine ⟨by decide, ?_, ?_, ?_⟩ <;> decide +kernel
  -- renewal 2 succeeds at the last moment, so neither 3 nor 4 can be the third miss
  have hleast : IsLeast {k | ThirdMiss (.ofMillis 100) fading k} 5 := by
    refine ⟨hfifth, fun k hk => ?_⟩
    obtain ⟨hthree, hfirst, hbefore, _⟩ := hk
    have hsecond : (fading 2).misses (.ofMillis 100) = false := by decide +kernel
    by_contra hearly
    obtain rfl | rfl : k = 3 ∨ k = 4 := by omega
    · exact absurd (hbefore.symm.trans hsecond) (by simp)
    · exact absurd (hfirst.symm.trans hsecond) (by simp)
  obtain ⟨m, c, hc', herror⟩ := (ends_at_third_miss forsaken scripted_spares scripted_answered
    hc (by decide) httl).2.2.2.2.1.mpr ⟨5, hfifth⟩
  obtain ⟨e, he⟩ := Option.isSome_iff_exists.mp herror
  have httl' := httl
  rw [← Context.ttl_congr (context_same (.start ..) hc hc').1] at httl'
  obtain ⟨k, hended⟩ := (ends_at_third_miss forsaken scripted_spares scripted_answered
    hc' (by decide) httl').2.2.2.1 e he
  obtain rfl := hended.least.unique hleast
  exact ⟨m, c, e, hc', he, hended⟩

end Course

end Tenure.Lifecycle
