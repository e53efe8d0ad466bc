import Tenure.Proofs.Lifecycle.Progress

/-!
# The destroy attempt ends in time

The destroy call of a context is made at the moment at which the context ends, for no
time passes while the attempt is queued. Its time limit is the lock-delay, so it is
over one lock-delay later, whether the agent has answered by then or not.

* `Context.AtDestruction` — what a move has to do with the destroy attempt;
* `Context.Timed` — the invariant: where the attempt stands, when the context ended and
  when the attempt was over;
* `Context.Timed.over_le`, `Context.Timed.over_of_late` — the bound.
-/

namespace Tenure.Lifecycle

variable {α : Type}

/-! ## Reading the log -/

/-- Whether the event tells that the destroy attempt is over: it succeeded, it failed or it
timed out. -/
def Event.isDestroyOver : Event → Bool
  | .destroyed => true
  | .destroyFailed _ => true
  | .destroyTimedOut _ => true
  | _ => false

namespace Log

/-- When the context ended. -/
def endTimes (log : Log) : List Nat := log.filterMap fun x => x.2.ending?.map fun _ => x.1

/-- When the destroy attempt was over. -/
def overTimes (log : Log) : List Nat := (log.filter (·.2.isDestroyOver)).map (·.1)

@[simp] theorem endTimes_append (log more : Log) :
    (log ++ more : Log).endTimes = log.endTimes ++ more.endTimes := List.filterMap_append ..

@[simp] theorem overTimes_append (log more : Log) :
    (log ++ more : Log).overTimes = log.overTimes ++ more.overTimes := by
  unfold overTimes
  rw [List.filter_append, List.map_append]

theorem mem_endTimes {log : Log} {t : Nat} {e : SessionError} (h : (t, .ending e) ∈ log) :
    t ∈ log.endTimes := List.mem_filterMap.mpr ⟨_, h, rfl⟩

theorem endTimes_eq_nil {log : Log} (h : ∀ x ∈ log, x.2.ending? = none) : log.endTimes = [] := by
  refine List.filterMap_eq_nil_iff.mpr fun x hx => ?_
  rw [h x hx]
  rfl

theorem overTimes_eq_nil {log : Log} (h : ∀ x ∈ log, x.2.isDestroyOver = false) :
    log.overTimes = [] := by
  unfold overTimes
  rw [List.filter_eq_nil_iff.mpr fun x hx => by rw [h x hx]; exact Bool.false_ne_true]
  rfl

end Log

/-- Whether the event has nothing to do with the end and the destroy attempt. -/
def Event.isAside (e : Event) : Bool := e.ending?.isNone && !e.isDestroyOver

theorem Log.times_aside (log : Log) (now : Nat) {events : List Event}
    (h : ∀ e ∈ events, e.isAside = true) :
    (log ++ events.map (now, ·) : Log).endTimes = log.endTimes ∧
      (log ++ events.map (now, ·) : Log).overTimes = log.overTimes := by
  have hends : ∀ x ∈ events.map (now, ·), x.2.ending? = none ∧ x.2.isDestroyOver = false := by
    intro x hx
    obtain ⟨e, he, rfl⟩ := List.mem_map.mp hx
    simpa [Event.isAside] using h e he
  rw [endTimes_append, overTimes_append, endTimes_eq_nil fun x hx => (hends x hx).1,
    overTimes_eq_nil fun x hx => (hends x hx).2]
  exact ⟨List.append_nil _, List.append_nil _⟩

theorem Pending.wake_le {β : Type} (call : Pending β) : call.wake ≤ wakeAt call.limit := by
  unfold wake
  split
  · exact Nat.min_le_right _ _
  · exact Nat.le_refl _

theorem Pending.le_wake_issue {β : Type} (number now : Nat) (answer : Answer β)
    (limit : Duration) : now ≤ (issue number now answer limit).wake := by
  rw [wake_issue_eq]
  exact Nat.le_add_right _ _

/-- A call with the lock-delay as time limit wakes no later than one lock-delay on. -/
theorem Pending.wake_le_of_limit {β : Type} {call : Pending β} {d : Duration}
    (hlimit : call.limit = deadlineAfter call.since d) : call.wake ≤ call.since + wakeAt d.nanos := by
  have hwake := call.wake_le
  rw [hlimit, wakeAt_deadlineAfter] at hwake
  exact Nat.le_trans hwake (Nat.add_le_add_left (waitFor_le d) _)

namespace Context

/-! ## Moves and the destroy attempt -/

/-- What a move has to do with the destroy attempt: it ends the context, makes the destroy
call, notes that it is over, or leaves it alone. -/
inductive AtDestruction (s : Surroundings) (c : Context) (events : List Event) (c' : Context) :
    Prop
  | apart (hdestruction : c'.destruction = c.destruction)
      (haside : ∀ e ∈ events, e.isAside = true)
  | ends (hlive : c.error = none) (hdestruction : c'.destruction = .queued)
      (hends : Log.endTimes (events.map (s.now, ·)) = [s.now])
      (hover : Log.overTimes (events.map (s.now, ·)) = [])
  | calls (hqueued : c.destruction = .queued)
      (hdestruction : c'.destruction =
        .calling (.issue s.number s.now s.destroyAnswer c.lockDelay))
      (haside : ∀ e ∈ events, e.isAside = true)
  | settles (call : Pending Unit) (hcalling : c.destruction = .calling call)
      (hdestruction : c'.destruction = .finished)
      (hends : Log.endTimes (events.map (s.now, ·)) = [])
      (hover : Log.overTimes (events.map (s.now, ·)) = [s.now])

theorem isAside_of_isWork {e : Event} (h : e.isWork = true) : e.isAside = true := by
  cases e <;> first | rfl | exact absurd h (by simp [Event.isWork])

theorem Move.atDestruction {s : Surroundings} {actor : Actor} {c c' : Context}
    {events : List Event} (h : Move s actor c events c') : c.AtDestruction s events c' := by
  have hone : ∀ {e : Event}, e.isAside = true → ∀ x ∈ [e], x.isAside = true := by simp
  have hnone : ∀ x ∈ ([] : List Event), x.isAside = true := by simp
  cases h with
  | leave _ _ => exact .apart rfl hnone
  | orphaned _ hlive _ => exact .ends hlive rfl rfl rfl
  | givenUp _ hlive _ => exact .ends hlive rfl rfl rfl
  | issueRenewal _ _ _ _ _ => exact .apart rfl (hone rfl)
  | interrupted _ _ => exact .apart rfl (hone rfl)
  | renewed _ _ _ _ => exact .apart rfl (List.forall_mem_cons.mpr ⟨rfl, hone rfl⟩)
  | missed _ _ hfailed _ =>
      cases hfailed <;> exact .apart rfl (List.forall_mem_cons.mpr ⟨rfl, hone rfl⟩)
  | expired _ hlive hfailed _ => cases hfailed <;> exact .ends hlive rfl rfl rfl
  | tornDown _ _ => exact .apart rfl hnone
  | issueDestroy hqueued => exact .calls hqueued rfl (hone rfl)
  | destroyOver hcalling hover => cases hover <;> exact .settles _ hcalling rfl rfl rfl
  | cancel _ hlive => exact .ends hlive rfl rfl rfl
  | drop => exact .apart rfl (hone rfl)
  | work _ hwork => exact .apart rfl fun e he => isAside_of_isWork (hwork e he)
  | handOutToken => exact .apart rfl hnone
  | cancelToken k => exact .apart rfl hnone

/-! ## The invariant -/

/-- Where the destroy attempt stands at the time `now`, and what the log says about it. -/
inductive Timed (now : Nat) (c : Context) (log : Log) : Prop
  | live (hidle : c.destruction = .idle) (hends : log.endTimes = [])
      (hover : log.overTimes = [])
  | queued (hqueued : c.destruction = .queued) (hends : log.endTimes = [now])
      (hover : log.overTimes = [])
  | calling (call : Pending Unit) (hcalling : c.destruction = .calling call)
      (hsince : call.since ≤ now) (hearly : now ≤ call.wake)
      (hlimit : call.limit = deadlineAfter call.since c.lockDelay)
      (hends : log.endTimes = [call.since]) (hover : log.overTimes = [])
  | finished (ended settled : Nat) (hfinished : c.destruction = .finished)
      (hfirst : ended ≤ settled) (hlast : settled ≤ ended + wakeAt c.lockDelay.nanos)
      (hends : log.endTimes = [ended]) (hover : log.overTimes = [settled])

theorem lockDelay_congr {c c' : Context} (h : c'.session = c.session) :
    c'.lockDelay = c.lockDelay := by
  unfold lockDelay
  rw [h]

/-- What leaves the destroy attempt alone. -/
theorem Timed.apart {now : Nat} {c c' : Context} {log : Log} (h : c.Timed now log)
    (hdelay : c'.lockDelay = c.lockDelay) (hdestruction : c'.destruction = c.destruction)
    {events : List Event} (haside : ∀ e ∈ events, e.isAside = true) :
    c'.Timed now (log ++ events.map (now, ·)) := by
  obtain ⟨hsame, hsame'⟩ := log.times_aside now haside
  cases h with
  | live hidle hends hover =>
      exact .live (hdestruction.trans hidle) (hsame.trans hends) (hsame'.trans hover)
  | queued hqueued hends hover =>
      exact .queued (hdestruction.trans hqueued) (hsame.trans hends) (hsame'.trans hover)
  | calling call hcalling hsince hearly hlimit hends hover =>
      refine .calling call (hdestruction.trans hcalling) hsince hearly ?_ (hsame.trans hends)
        (hsame'.trans hover)
      rw [hdelay]
      exact hlimit
  | finished ended settled hfinished hfirst hlast hends hover =>
      refine .finished ended settled (hdestruction.trans hfinished) hfirst ?_ (hsame.trans hends)
        (hsame'.trans hover)
      rw [hdelay]
      exact hlast

theorem Timed.move {s : Surroundings} {actor : Actor} {c c' : Context} {events : List Event}
    {log : Log} (h : c.Timed s.now log) (htorn : c.Teardown log)
    (hmove : Move s actor c events c') :
    c'.Timed s.now (log ++ events.map (s.now, ·)) := by
  have hdelay := lockDelay_congr hmove.frame.1
  cases hmove.atDestruction with
  | apart hdestruction haside => exact h.apart hdelay hdestruction haside
  | ends hlive hdestruction hends hover =>
      -- a live context has no destroy attempt, so there has been no end either
      have hidle := (htorn.live hlive).destruction
      cases h with
      | live _ hends' hover' =>
          refine .queued hdestruction ?_ ?_
          · rw [Log.endTimes_append, hends', hends]
            rfl
          · rw [Log.overTimes_append, hover', hover]
            rfl
      | queued hother _ _ => exact absurd (hidle.symm.trans hother) (by simp)
      | calling _ hother _ _ _ _ _ => exact absurd (hidle.symm.trans hother) (by simp)
      | finished _ _ hother _ _ _ _ => exact absurd (hidle.symm.trans hother) (by simp)
  | calls hqueued hdestruction haside =>
      obtain ⟨hsame, hsame'⟩ := log.times_aside s.now haside
      cases h with
      | queued _ hends hover =>
          -- the call is made at the very moment of the end
          refine .calling _ hdestruction (Nat.le_refl _) (Pending.le_wake_issue ..) ?_
            (hsame.trans hends) (hsame'.trans hover)
          rw [hdelay]
          rfl
      | live hother _ _ => exact absurd (hqueued.symm.trans hother) (by simp)
      | calling _ hother _ _ _ _ _ => exact absurd (hqueued.symm.trans hother) (by simp)
      | finished _ _ hother _ _ _ _ => exact absurd (hqueued.symm.trans hother) (by simp)
  | settles call hcalling hdestruction hends hover =>
      cases h with
      | calling call' hcalling' hsince hearly hlimit hends' hover' =>
          obtain rfl := Destruction.calling.inj (hcalling.symm.trans hcalling')
          refine .finished call.since s.now hdestruction hsince ?_ ?_ ?_
          · rw [hdelay]
            exact Nat.le_trans hearly (Pending.wake_le_of_limit hlimit)
          · rw [Log.endTimes_append, hends', hends]
            rfl
          · rw [Log.overTimes_append, hover', hover]
            rfl
      | live hother _ _ => exact absurd (hcalling.symm.trans hother) (by simp)
      | queued hother _ _ => exact absurd (hcalling.symm.trans hother) (by simp)
      | finished _ _ hother _ _ _ _ => exact absurd (hcalling.symm.trans hother) (by simp)

/-- The attempt holds time up while it is queued, and no longer than its limit afterwards. -/
theorem Timed.pass {now t : Nat} {parentCancelled : Bool} {c : Context} {log : Log}
    (h : c.Timed now log) (hpassing : c.Passing now t parentCancelled) : c.Timed t log := by
  have hquiet := hpassing.destructionQuiet
  unfold destructionReady at hquiet
  cases h with
  | live hidle hends hover => exact .live hidle hends hover
  | queued hqueued hends hover =>
      rw [hqueued] at hquiet
      exact absurd hquiet (by simp)
  | calling call hcalling hsince hearly hlimit hends hover =>
      have hlater := hpassing.later
      refine .calling call hcalling (by omega) ?_ hlimit hends hover
      exact hpassing.destructionWake call.wake (by unfold destructionWake; rw [hcalling])
  | finished ended settled hfinished hfirst hlast hends hover =>
      exact .finished ended settled hfinished hfirst hlast hends hover

theorem Timed.start {now : Nat} {c : Context} {log : Log} (hidle : c.destruction = .idle)
    (hopening : ∀ x ∈ log, x.2.isOpening = true) : c.Timed now log := by
  have haside : ∀ x ∈ log, x.2.ending? = none ∧ x.2.isDestroyOver = false := by
    intro x hx
    have hevent := hopening x hx
    revert hevent
    cases x.2 <;> simp [Event.isOpening, Event.ending?, Event.isDestroyOver]
  exact .live hidle (Log.endTimes_eq_nil fun x hx => (haside x hx).1)
    (Log.overTimes_eq_nil fun x hx => (haside x hx).2)

theorem timed_invariant : Invariant fun now c log _ => c.Teardown log ∧ c.Timed now log where
  start now requested session id agent parent log hresolve hopening :=
    ⟨teardown_invariant.start now requested session id agent parent log hresolve hopening,
      .start rfl hopening⟩
  move _ _ _ _ _ _ _ h hmove := ⟨h.1.move hmove, h.2.move h.1 hmove⟩
  pass _ _ _ _ _ _ h hpassing := ⟨h.1, h.2.pass hpassing⟩

/-! ## The bound -/

variable {now ended : Nat} {c : Context} {log : Log}

theorem Timed.length_over_le (h : c.Timed now log) : log.overTimes.length ≤ 1 := by
  cases h with
  | finished _ _ _ _ _ _ hover => rw [hover]; exact Nat.le_refl _
  | live _ _ hover => rw [hover]; exact Nat.zero_le _
  | queued _ _ hover => rw [hover]; exact Nat.zero_le _
  | calling _ _ _ _ _ _ hover => rw [hover]; exact Nat.zero_le _

/-- The attempt is over no later than one lock-delay after the end. -/
theorem Timed.over_le (h : c.Timed now log) (hended : ended ∈ log.endTimes) :
    ∀ t ∈ log.overTimes, ended ≤ t ∧ t ≤ ended + wakeAt c.lockDelay.nanos := by
  intro t ht
  cases h with
  | finished ended' settled _ hfirst hlast hends hover =>
      rw [hends] at hended
      rw [hover] at ht
      obtain rfl := List.mem_singleton.mp hended
      obtain rfl := List.mem_singleton.mp ht
      exact ⟨hfirst, hlast⟩
  | live _ _ hover => rw [hover] at ht; exact absurd ht List.not_mem_nil
  | queued _ _ hover => rw [hover] at ht; exact absurd ht List.not_mem_nil
  | calling _ _ _ _ _ _ hover => rw [hover] at ht; exact absurd ht List.not_mem_nil

/-- As long as the attempt is not over, it is early enough for it. -/
theorem Timed.early (h : c.Timed now log) (hended : ended ∈ log.endTimes)
    (hover : log.overTimes = []) : now ≤ ended + wakeAt c.lockDelay.nanos := by
  cases h with
  | live _ hends _ => rw [hends] at hended; exact absurd hended List.not_mem_nil
  | queued _ hends _ =>
      rw [hends] at hended
      obtain rfl := List.mem_singleton.mp hended
      exact Nat.le_add_right _ _
  | calling call _ _ hearly hlimit hends _ =>
      rw [hends] at hended
      obtain rfl := List.mem_singleton.mp hended
      exact Nat.le_trans hearly (Pending.wake_le_of_limit hlimit)
  | finished _ _ _ _ _ _ hone => exact absurd (hone.symm.trans hover) (by simp)

theorem Timed.endTimes_eq (h : c.Timed now log) (hended : ended ∈ log.endTimes) :
    log.endTimes = [ended] := by
  have hone : ∀ {t : Nat}, log.endTimes = [t] → log.endTimes = [ended] := by
    intro t hends
    rw [hends] at hended
    obtain rfl := List.mem_singleton.mp hended
    exact hends
  cases h with
  | live _ hends _ => rw [hends] at hended; exact absurd hended List.not_mem_nil
  | queued _ hends _ => exact hone hends
  | calling _ _ _ _ _ hends _ => exact hone hends
  | finished _ _ _ _ _ hends _ => exact hone hends

theorem Timed.endTimes_of_live (h : c.Timed now log) (htorn : c.Teardown log)
    (hlive : c.error = none) : log.endTimes = [] := by
  have hidle := (htorn.live hlive).destruction
  cases h with
  | live _ hends _ => exact hends
  | queued hother _ _ => exact absurd (hidle.symm.trans hother) (by simp)
  | calling _ hother _ _ _ _ _ => exact absurd (hidle.symm.trans hother) (by simp)
  | finished _ _ hother _ _ _ _ => exact absurd (hidle.symm.trans hother) (by simp)

theorem Timed.exists_end (h : c.Timed now log) (htorn : c.Teardown log)
    (herror : c.error.isSome = true) : ∃ ended, ended ∈ log.endTimes := by
  have hone : ∀ {t : Nat}, log.endTimes = [t] → ∃ ended, ended ∈ log.endTimes :=
    fun hends => ⟨_, by rw [hends]; exact List.mem_singleton_self _⟩
  cases h with
  | live hidle _ _ =>
      -- an end leaves a destroy attempt behind
      cases htorn.attempted herror with
      | queued hother _ _ => exact absurd (hidle.symm.trans hother) (by simp)
      | calling _ hother _ _ => exact absurd (hidle.symm.trans hother) (by simp)
      | finished hother _ _ => exact absurd (hidle.symm.trans hother) (by simp)
  | queued _ hends _ => exact hone hends
  | calling _ _ _ _ _ hends _ => exact hone hends
  | finished _ _ _ _ _ hends _ => exact hone hends

/-- It is signalled that the attempt is over, and not before. -/
theorem Timed.over_of_destroyed (h : c.Timed now log) (htorn : c.Teardown log)
    (hdestroyed : c.destroyed = true) : log.overTimes.length = 1 := by
  have hfinished : c.destruction = .finished := by
    cases herror : c.error with
    | none =>
        rw [(htorn.live herror).destroyed] at hdestroyed
        exact absurd hdestroyed Bool.false_ne_true
    | some e =>
        cases htorn.attempted (by rw [herror]; rfl) with
        | queued _ _ hnot => exact absurd (hdestroyed.symm.trans hnot) (by simp)
        | calling _ _ _ hnot => exact absurd (hdestroyed.symm.trans hnot) (by simp)
        | finished hfinished _ _ => exact hfinished
  cases h with
  | finished _ _ _ _ _ _ hover => rw [hover]; rfl
  | live hother _ _ => exact absurd (hfinished.symm.trans hother) (by simp)
  | queued hother _ _ => exact absurd (hfinished.symm.trans hother) (by simp)
  | calling _ hother _ _ _ _ _ => exact absurd (hfinished.symm.trans hother) (by simp)

theorem Timed.over_eq_nil (h : c.Timed now log) (htorn : c.Teardown log)
    (hnot : c.destroyed = false) : log.overTimes = [] := by
  cases h with
  | live _ _ hover => exact hover
  | queued _ _ hover => exact hover
  | calling _ _ _ _ _ _ hover => exact hover
  | finished _ _ hfinished _ _ _ _ =>
      obtain ⟨e, he⟩ := htorn.ended (by rw [hfinished]; simp)
      cases htorn.attempted (by rw [he]; rfl) with
      | queued hother _ _ => exact absurd (hfinished.symm.trans hother) (by simp)
      | calling _ hother _ _ => exact absurd (hfinished.symm.trans hother) (by simp)
      | finished _ _ hdestroyed => exact absurd (hdestroyed.symm.trans hnot) (by simp)

/-- **The attempt ends in time.** Later than one lock-delay after the end it is over. -/
theorem Timed.destroyed_of_late (h : c.Timed now log) (htorn : c.Teardown log)
    (hended : ended ∈ log.endTimes) (hlate : ended + wakeAt c.lockDelay.nanos < now) :
    c.destroyed = true := by
  by_contra hnot
  have hearly := h.early hended (h.over_eq_nil htorn (Bool.eq_false_iff.mpr hnot))
  omega

end Context

end Tenure.Lifecycle
