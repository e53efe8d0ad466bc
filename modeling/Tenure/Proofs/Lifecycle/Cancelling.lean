import Mathlib.Data.List.Induction
import Tenure.Proofs.Lifecycle.Callers
import Tenure.Proofs.Lifecycle.Destruction

/-!
# Cancelling waits for the destroy attempt, and not forever

Whoever cancels or closes a context waits for its one destroy attempt, also those who
come late and those who are not the first. The attempt ends in time, and where it is
over nobody is left waiting when the processes have come to rest: the renewal task
exits at the end, and with it goes the last thing that closing waits for.

* `Context.Stopping` — where a caller that cancels or closes can stand, and what must be
  the case for it;
* `World.Stopped` — the same of a run, with the time until which the caller may wait;
* `World.cancelling_waits` — the whole of it, for every call and every run after it.
-/

namespace Tenure.Lifecycle

variable {α : Type}

/-- The demand to cancel the context, or to close it. -/
def Demand.stop (closing : Bool) : Demand α := if closing then .close else .cancel

namespace Context

theorem Move.destroyed_of_destroyed {s : Surroundings} {actor : Actor} {c c' : Context}
    {events : List Event} (h : Move s actor c events c') (hdestroyed : c.destroyed = true) :
    c'.destroyed = true := by
  cases h.atTheEnd with
  | apart _ _ hsame _ _ => exact hsame.trans hdestroyed
  | ends _ _ _ _ hsame _ _ => exact hsame.trans hdestroyed
  | calls _ _ _ _ hsame _ _ => exact hsame.trans hdestroyed
  | settles _ _ _ _ hover _ _ => exact hover

theorem renewal_of_exited {c : Context} (h : c.renewalExited = true) : c.renewal = .exited := by
  unfold renewalExited at h
  cases hrenewal : c.renewal <;> rw [hrenewal] at h <;>
    first | rfl | exact absurd h Bool.false_ne_true

/-- The renewal task does not come back. -/
theorem Move.exited_of_exited {s : Surroundings} {actor : Actor} {c c' : Context}
    {events : List Event} (h : Move s actor c events c') (hexited : c.renewalExited = true) :
    c'.renewalExited = true := by
  have hover := renewal_of_exited hexited
  cases h with
  | leave _ _ => rfl
  | interrupted _ _ => rfl
  | tornDown _ _ => rfl
  | orphaned hrenewal _ _ => exact absurd (hover.symm.trans hrenewal) (by simp)
  | givenUp hrenewal _ _ => exact absurd (hover.symm.trans hrenewal) (by simp)
  | issueRenewal hrenewal _ _ _ _ => exact absurd (hover.symm.trans hrenewal) (by simp)
  | renewed hrenewal _ _ _ => exact absurd (hover.symm.trans hrenewal) (by simp)
  | missed hrenewal _ _ _ => exact absurd (hover.symm.trans hrenewal) (by simp)
  | expired hrenewal _ _ _ => exact absurd (hover.symm.trans hrenewal) (by simp)
  | issueDestroy _ => exact hexited
  | destroyOver _ _ => exact hexited
  | cancel _ _ => exact hexited
  | drop => exact hexited
  | work _ _ => exact hexited
  | handOutToken => exact hexited
  | cancelToken _ => exact hexited

/-! ## Where a caller stands -/

/-- Where a caller that cancels the context, or closes it, can stand, and what is the case
of the context then. -/
inductive Stopping (closing : Bool) (c : Context) : Activity α → Prop
  | asking : Stopping closing c (Demand.stop closing).activity
  | waiting (hended : c.error.isSome = true) : Stopping closing c (.awaitDestroyed closing)
  | exiting (hclosing : closing = true) (hdestroyed : c.destroyed = true) :
      Stopping closing c .awaitRenewal
  | cancelled (hclosing : closing = false) (hdestroyed : c.destroyed = true) :
      Stopping closing c (.returned .cancelled)
  | closed (hclosing : closing = true) (hdestroyed : c.destroyed = true)
      (hexited : c.renewalExited = true) {e : SessionError} (herror : c.error = some e) :
      Stopping closing c (.returned (.closed e))
  | abandoned : Stopping closing c .abandoned

variable {closing : Bool} {c c' : Context} {activity : Activity α}

theorem Stopping.move {s : Surroundings} {actor : Actor} {events : List Event}
    (h : c.Stopping closing activity) (hmove : Move s actor c events c') :
    c'.Stopping closing activity := by
  cases h with
  | asking => exact .asking
  | waiting hended =>
      obtain ⟨e, he⟩ := Option.isSome_iff_exists.mp hended
      exact .waiting (by rw [hmove.error_of_error he]; rfl)
  | exiting hclosing hdestroyed => exact .exiting hclosing (hmove.destroyed_of_destroyed hdestroyed)
  | cancelled hclosing hdestroyed =>
      exact .cancelled hclosing (hmove.destroyed_of_destroyed hdestroyed)
  | closed hclosing hdestroyed hexited herror =>
      exact .closed hclosing (hmove.destroyed_of_destroyed hdestroyed)
        (hmove.exited_of_exited hexited) (hmove.error_of_error herror)
  | abandoned => exact .abandoned

/-- What waits for the renewal task waits on, or is told the terminal error. -/
theorem stopping_pollAwaitRenewal (k : Caller α) (hended : c.error.isSome = true)
    (hdestroyed : c.destroyed = true) :
    Stopping true (k.pollAwaitRenewal c).2.1 (k.pollAwaitRenewal c).1.activity := by
  unfold Caller.pollAwaitRenewal
  split
  · rename_i hexited
    exact Stopping.closed (c := c.drop) rfl hdestroyed hexited (error_eq_terminalError hended)
  · exact .exiting rfl hdestroyed

theorem stopping_pollAwaitDestroyed (k : Caller α) (hended : c.error.isSome = true) :
    Stopping closing (k.pollAwaitDestroyed c closing).2.1
      (k.pollAwaitDestroyed c closing).1.activity := by
  unfold Caller.pollAwaitDestroyed
  split
  · rename_i hdestroyed
    cases closing with
    | true => exact stopping_pollAwaitRenewal k hended hdestroyed
    | false => exact .cancelled rfl hdestroyed
  · exact .waiting hended

theorem error_conclude (c : Context) (e : SessionError) : (c.conclude e).1.error.isSome = true := by
  unfold conclude
  split
  · rename_i herror
    rw [herror]
    rfl
  · rfl

/-- A turn of a caller that cancels or closes. -/
theorem Stopping.poll {k : Caller α} (h : c.Stopping closing k.activity) (hc : c.Ordered)
    (now : Nat) : Stopping closing (k.poll now c).2.1 (k.poll now c).1.activity := by
  have hasks : Stopping closing (k.pollCancel c closing).2.1
      (k.pollCancel c closing).1.activity := by
    unfold Caller.pollCancel
    exact stopping_pollAwaitDestroyed k (error_conclude c .cancelled)
  by_cases hover : k.isOver = true
  · rw [Caller.poll_of_isOver hover]
    exact h
  unfold Caller.isOver at hover
  unfold Caller.poll
  generalize k.activity = activity at h hover
  cases h with
  | asking => cases closing <;> exact hasks
  | waiting hended => exact stopping_pollAwaitDestroyed k hended
  | exiting hclosing hdestroyed =>
      subst hclosing
      exact stopping_pollAwaitRenewal k (hc.destroyed hdestroyed) hdestroyed
  | cancelled _ _ => exact absurd rfl hover
  | closed _ _ _ _ => exact absurd rfl hover
  | abandoned => exact absurd rfl hover

theorem Stopping.abandon {k : Caller α} (h : c.Stopping closing k.activity) :
    Stopping closing (k.abandon c).2.1 (k.abandon c).1.activity := by
  by_cases hover : k.isOver = true
  · rw [Caller.abandon_of_isOver hover]
    exact h
  unfold Caller.isOver at hover
  unfold Caller.abandon
  generalize k.activity = activity at h hover
  cases h with
  | asking => cases closing <;> exact .abandoned
  | waiting _ => cases closing <;> exact .abandoned
  | exiting _ _ => exact .abandoned
  | cancelled _ _ => exact absurd rfl hover
  | closed _ _ _ _ => exact absurd rfl hover
  | abandoned => exact absurd rfl hover

/-- Who cancels or closes and is left with nothing to do, while the renewal task has nothing
to do either, waits for the destroy attempt. -/
theorem Stopping.waits {k : Caller α} (h : c.Stopping closing k.activity) {now : Nat}
    (hover : k.isOver = false) (hquiet : k.isReady now c = false) (hs : c.Signalled)
    {parentCancelled : Bool} (hrenewal : c.renewalReady parentCancelled now = false)
    (hc : c.Ordered) : c.error.isSome = true ∧ c.destroyed = false := by
  unfold Caller.isReady at hquiet
  unfold Caller.isOver at hover
  generalize hactivity : k.activity = activity at h
  rw [hactivity] at hquiet hover
  cases h with
  | asking => cases closing <;> exact absurd hquiet (by simp [Demand.stop, Demand.activity])
  | waiting hended => exact ⟨hended, hquiet⟩
  | exiting _ hdestroyed =>
      -- the renewal task has seen the end, so it has exited
      have hended := hc.destroyed hdestroyed
      have hdone : c.done = true := by rw [hs]; exact hended
      have hexited : c.renewalExited = true := by
        unfold renewalReady at hrenewal
        cases hstands : c.renewal with
        | exited => unfold renewalExited; rw [hstands]
        | waiting tick expiry => rw [hstands] at hrenewal; simp [hdone] at hrenewal
        | renewing tick expiry call => rw [hstands] at hrenewal; simp [hdone] at hrenewal
        | tearingDown => rw [hstands] at hrenewal; simp [hdestroyed] at hrenewal
      exact absurd (hexited.symm.trans hquiet) (by simp)
  | cancelled _ _ => exact absurd hover (by simp)
  | closed _ _ _ _ => exact absurd hover (by simp)
  | abandoned => exact absurd hover (by simp)

end Context

namespace World

/-! ## A caller in a run -/

theorem caller_mem_processes {w : World α} {j : Nat} (hj : j < w.callers.length) :
    .caller j ∈ w.processes :=
  List.mem_append_right _ (List.mem_map.mpr ⟨j, List.mem_range.mpr hj, rfl⟩)

/-- Caller `j` has asked for the end of the context of attempt `i` at the time `since`. If
it is still there, this is the moment at which it has asked, or the destroy attempt has
begun by then and its time is not yet up. -/
structure Stopped (w : World α) (i j since : Nat) (closing : Bool) (k : Caller α)
    (c : Context) : Prop where
  caller : w.callers[j]? = some k
  context : w.context? i = some c
  attempt : k.attempt = i
  stands : c.Stopping closing k.activity
  early : k.isOver = false → w.now ≤ since ∨ ∃ ended ∈ (w.log i).endTimes,
    ended ≤ since ∧ w.now ≤ ended + wakeAt c.lockDelay.nanos

variable {w : World α} {i j since : Nat} {closing : Bool} {k : Caller α} {c : Context}

theorem Reachable.endTimes_le (hw : w.Reachable) : ∀ t ∈ (w.log i).endTimes, t ≤ w.now := by
  intro t ht
  obtain ⟨x, hx, htime⟩ := List.mem_filterMap.mp ht
  obtain ⟨_, _, rfl⟩ := Option.map_eq_some_iff.mp htime
  exact hw.log_le x hx

/-- Time passes only while the caller waits for a destroy attempt that is in time. -/
theorem Stopped.pass (h : w.Stopped i j since closing k c) (hw : w.Reachable)
    (hquiet : w.isQuiet = true) {t : Nat}
    (hpassing : c.Passing w.now t (w.scopes.isCancelled c.parent)) (hover : k.isOver = false) :
    ∃ ended ∈ (w.log i).endTimes, ended ≤ since ∧ t ≤ ended + wakeAt c.lockDelay.nanos := by
  obtain ⟨htorn, htimed⟩ := Context.timed_invariant.holds hw h.context
  have hrests : k.isReady w.now c = false := by
    have hprocess := caller_mem_processes (List.getElem?_eq_some_iff.mp h.caller).1
    have hready := not_ready_of_quiet hquiet hprocess
    simpa [isReady, h.caller, h.attempt, h.context] using hready
  obtain ⟨hended, hwaits⟩ := h.stands.waits hover hrests (hw.grounded.signalled i c h.context)
    hpassing.renewalQuiet (hw.ordered h.context)
  obtain ⟨ended, hmem⟩ := htimed.exists_end htorn hended
  refine ⟨ended, hmem, ?_, (htimed.pass hpassing).early hmem (htimed.over_eq_nil htorn hwaits)⟩
  rcases h.early hover with hnow | ⟨ended', hmem', hbefore, _⟩
  · exact Nat.le_trans (hw.endTimes_le ended hmem) hnow
  · rw [htimed.endTimes_eq hmem] at hmem'
    obtain rfl := List.mem_singleton.mp hmem'
    exact hbefore

theorem Stopped.step (h : w.Stopped i j since closing k c) (hw : w.Reachable) (a : Action α) :
    ∃ k' c', (w.step a).Stopped i j since closing k' c' := by
  have hc := h.context
  obtain ⟨k', c', hk', hc', hnext⟩ := caller_next h.caller (h.attempt ▸ hc) a
  rw [h.attempt] at hc'
  refine ⟨k', c', hk', hc', hnext.attempt.trans h.attempt, ?_, fun hover => ?_⟩
  · cases hnext with
    | polled => exact h.stands.poll (hw.ordered hc) w.now
    | abandoned => exact h.stands.abandon
    | waits _ _ _ =>
        obtain ⟨c'', hc'', hstands⟩ := hw.keeps_step hc
          (P := fun c => c.Stopping closing k.activity) (fun hmove hs => hs.move hmove) h.stands a
        obtain rfl := Option.some.inj (hc'.symm.trans hc'')
        exact hstands
  · rcases hw.step_context hc a with ⟨t, hw', hpassing⟩ |
      ⟨_, c'', _, _, hnow, hc'', hlog, _, hmoves⟩
    · have hquiet : w.isQuiet = true := quiet_of_later (by rw [hw']; exact hpassing.later)
      rw [hw'] at hc' ⊢
      obtain rfl := Option.some.inj (hc.symm.trans hc')
      exact .inr (h.pass hw hquiet hpassing (hnext.pending hover))
    · obtain rfl := Option.some.inj (hc'.symm.trans hc'')
      rw [hnow, hlog, Context.lockDelay_congr hmoves.frame.1, Log.endTimes_append]
      rcases h.early (hnext.pending hover) with hsince | ⟨ended, hmem, hrest⟩
      · exact .inl hsince
      · exact .inr ⟨ended, List.mem_append_left _ hmem, hrest⟩

/-- Whoever asks is a caller from then on. -/
theorem stopped_call (w : World α) {i : Nat} {c : Context} (hc : w.context? i = some c)
    (closing : Bool) : (w.step (.call i (.stop closing))).Stopped i w.callers.length w.now closing
      ⟨i, (Demand.stop closing).activity⟩ c := by
  rw [step_call hc]
  exact ⟨List.getElem?_concat_length, hc, rfl, .asking, fun _ => .inl (Nat.le_refl _)⟩

theorem Reachable.stopped_run (hw : w.Reachable) (h : w.Stopped i j since closing k c)
    (more : List (Action α)) : ∃ k' c', (w.run more).Stopped i j since closing k' c' :=
  hw.run_keeps (P := fun u => ∃ k c, u.Stopped i j since closing k c) ⟨k, c, h⟩
    (fun _ a hu ⟨_, _, hstopped⟩ => hstopped.step hu a) more

/-- A caller that has returned was not let go before everything it waits for was over. -/
theorem Stopped.outcome (h : w.Stopped i j since closing k c) {o : Outcome α}
    (ho : k.outcome? = some o) : c.destroyed = true ∧
      if closing then c.renewalExited = true ∧ ∃ e, c.error = some e ∧ o = .closed e
      else o = .cancelled := by
  have hstands := h.stands
  unfold Caller.outcome? at ho
  generalize k.activity = activity at hstands ho
  cases hstands with
  | asking => cases closing <;> exact absurd ho (by simp [Demand.stop, Demand.activity])
  | waiting _ => exact absurd ho (by simp)
  | exiting _ _ => exact absurd ho (by simp)
  | cancelled hclosing hdestroyed =>
      obtain rfl := Option.some.inj ho
      refine ⟨hdestroyed, ?_⟩
      rw [hclosing]
      rfl
  | closed hclosing hdestroyed hexited herror =>
      obtain rfl := Option.some.inj ho
      refine ⟨hdestroyed, ?_⟩
      rw [hclosing]
      exact ⟨hexited, _, herror, rfl⟩
  | abandoned => exact absurd ho (by simp)

/-- **Nobody is left waiting** when the time of the destroy attempt is up. -/
theorem Reachable.stop_returns (hw : w.Reachable) (hc : w.context? i = some c)
    {closing : Bool} {more : List (Action α)} (hkept : .abandon w.callers.length ∉ more)
    {u : World α} (hu : u = (w.step (.call i (.stop closing))).run more) {c' : Context}
    (hstopped : u.Stopped i w.callers.length w.now closing k c') (hlater : w.now < u.now)
    (hlate : ∀ ended ∈ (u.log i).endTimes, ended ≤ w.now →
      ended + wakeAt c'.lockDelay.nanos < u.now) :
    ∃ o, k.outcome? = some o := by
  have hover : k.isOver = true := by
    by_contra hover
    rcases hstopped.early (Bool.eq_false_iff.mpr hover) with
      hsince | ⟨ended, hmem, hbefore, hearly⟩
    · omega
    · have hlate := hlate ended hmem hbefore
      omega
  have hfresh : (Demand.stop closing : Demand α).activity ≠ .abandoned := by
    cases closing <;> simp [Demand.stop, Demand.activity]
  subst hu
  exact (hw.step _).returned (stopped_call w hc closing).caller hfresh hkept hstopped.caller hover

/-- **Cancelling waits for the destroy attempt, and not forever.** Let somebody cancel or
close a context, at whatever moment. There is only one destroy attempt, and it is over no
later than one lock-delay after the terminal error was recorded. A caller that was not
given up has returned once that time is up, and in every course of events it returns. It
never returns before the attempt is over, nor, if it was closing, before the renewal task
has exited. -/
theorem cancelling_waits {w : World α} (hw : w.Reachable) {i : Nat} {c : Context}
    (hc : w.context? i = some c) (closing : Bool) :
    let called := w.step (.call i (.stop closing))
    let j := w.callers.length
    let limit := wakeAt c.lockDelay.nanos
    (∀ more, ∃ k c', (called.run more).callers[j]? = some k ∧
      (called.run more).context? i = some c' ∧
      let log := (called.run more).log i
      let now := (called.run more).now
      log.overTimes.length ≤ 1 ∧
      (∀ ended e, (ended, .ending e) ∈ log →
        (∀ t ∈ log.overTimes, ended ≤ t ∧ t ≤ ended + limit) ∧
        (ended + limit < now → log.overTimes.length = 1) ∧
        (max w.now (ended + limit) < now → .abandon j ∉ more → ∃ o, k.outcome? = some o)) ∧
      (w.now + limit < now → .abandon j ∉ more → ∃ o, k.outcome? = some o) ∧
      (∀ o, k.outcome? = some o → c'.destroyed = true ∧ log.overTimes.length = 1 ∧
        if closing then c'.renewalExited = true ∧ ∃ e, c'.error = some e ∧ o = .closed e
        else o = .cancelled)) ∧
    (∀ course : Course called, (∀ n, course.action n ≠ .abandon j) →
      ∃ n k o, (course.world n).callers[j]? = some k ∧ k.outcome? = some o) := by
  intro called j limit
  have hcalled : called.Reachable := hw.step _
  have hasked := stopped_call w hc closing
  refine ⟨fun more => ?_, fun course hkept => ?_⟩
  · obtain ⟨k, c', hstopped⟩ := hcalled.stopped_run hasked more
    obtain ⟨htorn, htimed⟩ := Context.timed_invariant.holds (hcalled.run more) hstopped.context
    have hlimit : limit = wakeAt c'.lockDelay.nanos := by
      rw [Context.lockDelay_congr (hcalled.frame_run hasked.context hstopped.context).1]
    refine ⟨k, c', hstopped.caller, hstopped.context, htimed.length_over_le, ?_, ?_, ?_⟩
    · intro ended e hending
      have hended := Log.mem_endTimes hending
      refine ⟨?_, fun hlate => ?_, fun hlate hkept => ?_⟩
      · rw [hlimit]
        exact htimed.over_le hended
      · rw [hlimit] at hlate
        exact htimed.over_of_destroyed htorn (htimed.destroyed_of_late htorn hended hlate)
      · apply hw.stop_returns (u := called.run more) hc hkept rfl hstopped (by omega)
        intro ended' hended' _
        rw [htimed.endTimes_eq hended] at hended'
        obtain rfl := List.mem_singleton.mp hended'
        omega
    · intro hlate hkept
      apply hw.stop_returns (u := called.run more) hc hkept rfl hstopped (by omega)
      intro ended _ hbefore
      omega
    · intro o ho
      obtain ⟨hdestroyed, hhow⟩ := hstopped.outcome ho
      exact ⟨hdestroyed, htimed.over_of_destroyed htorn hdestroyed, hhow⟩
  · obtain ⟨n, hn⟩ := course.unending (w.now + limit + 1)
    rw [course.world_eq_run] at hn
    obtain ⟨k, c', hstopped⟩ := hcalled.stopped_run hasked (course.actions n)
    have hdelay := Context.lockDelay_congr
      (hcalled.frame_run hasked.context hstopped.context).1
    obtain ⟨o, ho⟩ : ∃ o, k.outcome? = some o := by
      apply hw.stop_returns (u := called.run (course.actions n)) hc
        (course.not_mem_actions hkept n) rfl hstopped (by omega)
      intro ended _ hbefore
      rw [hdelay]
      omega
    exact ⟨n, k, o, by rw [course.world_eq_run]; exact hstopped.caller, ho⟩

/-- A context has been cancelled while a renewal was in flight, by somebody who was given up
at once. The agent answers neither to the renewal nor to the destroy call. -/
def deserted : World Unit :=
  (untouched [.scripted "s-1" (fun _ => ⟨none, .ok ()⟩) ⟨none, .ok ()⟩] {} 0).run
    [.begin 0 0 { lockDelay := some (.ofMillis 20), ttl := some (.ofMillis 300) },
      .poll (.opening 0), .advance 100, .poll (.renewal 0), .call 0 .cancel,
      .poll (.caller 0), .abandon 0]

/-- What happens when the context is closed then: the destroy call runs into its limit. -/
def desertedClose : List (Action Unit) :=
  [.poll (.caller 1), .poll (.destruction 0), .poll (.renewal 0), .advance 120,
    .poll (.destruction 0), .poll (.caller 1), .advance 121]

theorem cancelling_waits_of_deserted :
    ∃ k c o, ((deserted.step (.call 0 (.stop true))).run desertedClose).callers[1]? = some k ∧
      ((deserted.step (.call 0 (.stop true))).run desertedClose).context? 0 = some c ∧
      k.outcome? = some o ∧ c.destroyed = true ∧ c.renewalExited = true ∧
      (((deserted.step (.call 0 (.stop true))).run desertedClose).log 0).overTimes = [120] := by
  have hc : deserted.context? 0 = some ((deserted.context? 0).get (by decide +kernel)) :=
    (Option.some_get _).symm
  have hdelay : wakeAt ((deserted.context? 0).get (by decide +kernel)).lockDelay.nanos = 20 := by
    decide +kernel
  have hnow : deserted.now = 100 := by decide +kernel
  have hlater : ((deserted.step (.call 0 (.stop true))).run desertedClose).now = 121 := by
    decide +kernel
  have hcallers : deserted.callers.length = 1 := by decide +kernel
  have hover : (((deserted.step (.call 0 (.stop true))).run desertedClose).log 0).overTimes =
    [120] := by decide +kernel
  obtain ⟨hmoments, _⟩ := cancelling_waits (w := deserted) (reachable_run _ _ _ _) hc true
  obtain ⟨k, c, hk, hc', _, _, hreturns, hheld⟩ := hmoments desertedClose
  rw [hcallers] at hk hreturns
  have hkept : .abandon 1 ∉ desertedClose := by simp [desertedClose]
  obtain ⟨o, ho⟩ := hreturns (by rw [hdelay, hnow, hlater]; decide) hkept
  obtain ⟨hdestroyed, _, hclosed⟩ := hheld o ho
  exact ⟨k, c, o, hk, hc', ho, hdestroyed, hclosed.1, hover⟩

end World

end Tenure.Lifecycle
