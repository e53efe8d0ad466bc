import Tenure.Proofs.Lifecycle.Verdict

/-!
# A session begins, or nothing is left behind

An attempt looks at its parent scope and at the configuration and then asks the agent
once. Whatever comes of it, the log of the attempt says all that it has done to the agent
and to the counters.

* `World.Trace` — what is left behind by an attempt that has asked the agent;
* `World.Beginning` — how an attempt stands that has had its first turn;
* `World.begins_or_leaves_nothing` — the whole of it, for every run.
-/

namespace Tenure.Lifecycle

variable {α : Type}

namespace World

variable {w : World α} {i : Nat} {b : Attempt} {r : CreateRequest}

/-! ## What an attempt leaves behind -/

/-- What is left behind at `v`, after the actions from `u`, by the attempt `b` whose request
went out at `u`. -/
structure Trace (u v : World α) (actions : List (Action α)) (i : Nat) (b : Attempt)
    (r : CreateRequest) : Prop where
  /-- The agent has been asked for one session, once. -/
  once : (v.log i).createCalls = [r.config]
  /-- Later than one lock-delay on there is a result. -/
  inTime : u.now + wakeAt r.limit.nanos < v.now → b.result?.isSome = true
  /-- The result is the verdict at the moment at which the answer came or the time was up,
  or earlier if the parent scope was cancelled. The time is the lock-delay, or less where
  that does not fit the clock (`waitFor`). -/
  decided : ∀ result, b.result? = some result → u.Once actions fun m a =>
    a = .poll (.opening i) ∧ m.now ≤ u.now + r.answer.heardAfter r.limit ∧
    (m.scopes.isCancelled b.parent = false → m.now = u.now + r.answer.heardAfter r.limit) ∧
    result.map (·.session) =
      (Attempt.verdict (m.scopes.isCancelled b.parent) r.answer r.limit).map
        ({ r.session with id := · })
  /-- Without a session nothing else was asked, and only a failed creation counts. -/
  failed : ∀ e, b.result? = some (.error e) →
    (v.log i).agentCalls = [.create r.config] ∧ (v.log i).metrics = .ofFailure e
  /-- A session counts as created, and as active until it ends. -/
  begun : ∀ c, b.result? = some (.ok c) → (v.log i).creations = (1, 0) ∧
    (v.log i).metrics.active = if c.error.isSome then 0 else 1

theorem Asked.trace {v : World α} {actions : List (Action α)} (h : v.Asked i b r)
    (hsince : r.since = w.now) :
    Trace w v actions i { b with stage := .creating r.session r.call } r := by
  have hnone : ∀ {result : Except SessionError Context},
      ({ b with stage := .creating r.session r.call } : Attempt).result? ≠ some result :=
    fun hresult => absurd hresult (by simp [Attempt.result?])
  refine ⟨?_, fun hlate => ?_, fun _ h => absurd h hnone, fun _ h => absurd h hnone,
    fun _ h => absurd h hnone⟩
  · rw [h.log]
    rfl
  · have hearly := h.early
    have hbound := r.answer.heardAfter_le r.limit
    have hlimit := waitFor_le r.limit
    rw [r.wake_call] at hearly
    omega

theorem Concluded.trace {v : World α} {actions : List (Action α)} (hv : v.Reachable)
    (hsince : r.since = w.now)
    (h : w.Once actions fun m a => m.Decides i b r a ∧
      v.Concluded i b r m.now (r.verdict (m.scopes.isCancelled b.parent))) :
    ∃ stage, v.attempts[i]? = some { b with stage } ∧
      Trace w v actions i { b with stage } r := by
  obtain ⟨before, a, after, hactions, hdecides, hconcluded⟩ := h
  have hearly : (w.run before).now ≤ w.now + r.answer.heardAfter r.limit := by
    rw [← hsince, ← r.wake_call]
    exact hdecides.early
  have hpunctual : (w.run before).scopes.isCancelled b.parent = false →
      (w.run before).now = w.now + r.answer.heardAfter r.limit := by
    intro hlive
    have hdecided := hdecides.decided
    unfold CreateRequest.isDecided at hdecided
    rw [hlive, Bool.false_or] at hdecided
    have hlate := Pending.wake_le_of_settled hdecided
    rw [r.wake_call, hsince] at hlate
    exact Nat.le_antisymm hearly hlate
  have hmoment : ∀ {result : Except SessionError Context}, result.map (·.session) =
      (r.verdict ((w.run before).scopes.isCancelled b.parent)).map
        ({ r.session with id := · }) →
      w.Once actions fun m a => a = .poll (.opening i) ∧
        m.now ≤ w.now + r.answer.heardAfter r.limit ∧
        (m.scopes.isCancelled b.parent = false →
          m.now = w.now + r.answer.heardAfter r.limit) ∧
        result.map (·.session) =
          (Attempt.verdict (m.scopes.isCancelled b.parent) r.answer r.limit).map
            ({ r.session with id := · }) :=
    fun hresult => ⟨before, a, after, hactions, hdecides.turn, hearly, hpunctual, hresult⟩
  generalize r.verdict ((w.run before).scopes.isCancelled b.parent) = verdict
    at hconcluded hmoment
  cases hconcluded with
  | refused hattempt hcalls hcount =>
      refine ⟨_, hattempt, ?_, fun _ => rfl, ?_, ?_, ?_⟩
      · unfold Log.createCalls
        rw [hcalls]
        rfl
      · intro result hresult
        obtain rfl := Option.some.inj hresult
        exact hmoment rfl
      · intro e he
        obtain rfl := Except.error.inj (Option.some.inj he)
        exact ⟨hcalls, hcount⟩
      · exact fun c hc => absurd hc (by simp [Attempt.result?])
  | @begun id c hattempt hsession _ hcalls hcount =>
      refine ⟨_, hattempt, hcalls, fun _ => rfl, ?_, ?_, ?_⟩
      · intro result hresult
        obtain rfl := Option.some.inj hresult
        exact hmoment (congrArg Except.ok hsession)
      · exact fun e he => absurd he (by simp [Attempt.result?])
      · intro c' hc'
        obtain rfl := Except.ok.inj (Option.some.inj hc')
        -- it was created once, and has ended as often as it has a terminal error
        have hcontext := context?_eq_some_iff.mpr ⟨_, hattempt, rfl⟩
        have hendings := (Context.teardown_invariant.holds hv hcontext).endings
        have hok : (v.log i).metrics.createsOk = 1 := congrArg Prod.fst hcount
        refine ⟨hcount, ?_⟩
        rw [Log.active_eq, hok, hendings]
        cases c.error <;> rfl

/-- An attempt that is refused in its first turn leaves nothing behind. -/
theorem Reachable.refused_at_once (hw : w.Reachable) (hb : w.attempts[i]? = some b)
    (hlog : w.log i = []) {agent : Agent} (hagent : w.agents[b.agent]? = some agent)
    {e : SessionError} (hturn : w.openingTurn b agent = (b.refuse e, []))
    (after : List (Action α)) :
    (w.run (.poll (.opening i) :: after)).attempts[i]? = some (b.refuse e) ∧
      (w.run (.poll (.opening i) :: after)).log i = [] := by
  obtain ⟨hrefused, hstill, _⟩ := step_opening hb hagent
  rw [hturn] at hrefused hstill
  obtain ⟨hstays, hlater⟩ := (hw.step (.poll (.opening i))).refused_run hrefused rfl after
  refine ⟨hstays, hlater.trans ?_⟩
  rw [hstill, hlog]
  rfl

/-- A session that resolves can be asked for. -/
theorem wire_of_resolve {requested session : Session} (h : requested.resolve = .ok session) :
    ∃ config, session.wire? = some config := by
  obtain ⟨ttl, httl, _⟩ := ttl_of_resolve h
  unfold Session.wire?
  rw [httl]
  exact ⟨_, rfl⟩

/-- A rejection says what is wrong with the configuration. -/
theorem rejection_of_fault {fault : ConfigFault} (h : fault ≠ .ttlOverflow) :
    ∃ reason, fault.rejection = some (.config reason) := by
  cases fault with
  | ttlOverflow => exact absurd rfl h
  | ttlTooShort ttl => exact ⟨_, rfl⟩
  | blankName => exact ⟨_, rfl⟩

theorem attempt_of_begin (hw : w.Reachable) {agent : Nat} (parent : Nat) (requested : Session)
    (hagent : agent < w.agents.length) :
    (w.step (.begin agent parent requested)).attempts[w.attempts.length]? =
        some { agent, parent, requested } ∧
      (w.step (.begin agent parent requested)).log w.attempts.length = [] ∧
      (w.step (.begin agent parent requested)).now = w.now := by
  have hstep : w.step (.begin agent parent requested) =
      { w with attempts := w.attempts ++ [{ agent, parent, requested }] } := if_pos hagent
  rw [hstep]
  refine ⟨List.getElem?_concat_length, ?_, rfl⟩
  -- nothing in the journal is about an attempt that there was not
  show w.log w.attempts.length = []
  unfold log
  rw [List.filter_eq_nil_iff.mpr fun e he => ?_]
  · rfl
  · have hplaced := hw.grounded.placed e he
    simp only [beq_iff_eq]
    omega

/-- How things stand at `v` with the attempt `b`, which had its first turn at `u` as the
first of the actions from there. -/
structure Beginning (u v : World α) (actions : List (Action α)) (i : Nat) (b : Attempt) :
    Prop where
  /-- What the attempt counts for is what its log counts for. -/
  counted : v.metrics = v.metricsBeside i + (v.log i).metrics
  cancelled : u.scopes.isCancelled b.parent = true →
    b.result? = some (.error .parentCancelled) ∧ v.log i = []
  rejected : u.scopes.isCancelled b.parent = false →
    ∀ fault, b.requested.resolve = .error fault →
      ∃ reason, fault.rejection = some (.config reason) ∧
        b.result? = some (.error (.config reason)) ∧ v.log i = []
  asked : u.scopes.isCancelled b.parent = false →
    ∀ session, b.requested.resolve = .ok session →
      ∃ config provider, session.wire? = some config ∧ u.agents[b.agent]? = some provider ∧
        Trace u v actions i b
          ⟨u.turns, u.now, session, config, provider.create (u.history b.agent) config⟩

/-- From its first turn on, an attempt stands as `Beginning` says. -/
theorem Reachable.beginning (hw : w.Reachable) (hb : w.attempts[i]? = some b)
    (hfresh : b.stage = .fresh) (hlog : w.log i = [])
    (hsound : b.requested.resolve ≠ .error .ttlOverflow) (after : List (Action α)) :
    ∃ stage, (w.run (.poll (.opening i) :: after)).attempts[i]? = some { b with stage } ∧
      w.Beginning (w.run (.poll (.opening i) :: after)) (.poll (.opening i) :: after) i
        { b with stage } := by
  obtain ⟨provider, hprovider⟩ : ∃ provider, w.agents[b.agent]? = some provider :=
    ⟨_, List.getElem?_eq_getElem (hw.grounded.served i b hb)⟩
  have hcounted := (hw.run (.poll (.opening i) :: after)).metrics_split i
  cases hparent : w.scopes.isCancelled b.parent with
  | true =>
      have hlive : ¬ w.scopes.isCancelled b.parent = false := by simp [hparent]
      have hturn : w.openingTurn b provider = (b.refuse .parentCancelled, []) := by
        simp only [openingTurn, Attempt.poll, hfresh, hparent, if_true]
      obtain ⟨hrefused, hnothing⟩ := hw.refused_at_once hb hlog hprovider hturn after
      exact ⟨_, hrefused, hcounted, fun _ => ⟨rfl, hnothing⟩, fun h => absurd h hlive,
        fun h => absurd h hlive⟩
  | false =>
      have hcancelled : ¬ w.scopes.isCancelled b.parent = true := by simp [hparent]
      cases hresolve : b.requested.resolve with
      | error fault =>
          have hfault : fault ≠ .ttlOverflow := fun h => hsound (hresolve.trans (by rw [h]))
          obtain ⟨reason, hreason⟩ := rejection_of_fault hfault
          have hturn : w.openingTurn b provider = (b.refuse (.config reason), []) := by
            simp only [openingTurn, Attempt.poll, hfresh, hparent, hresolve, hreason]
            rfl
          obtain ⟨hrefused, hnothing⟩ := hw.refused_at_once hb hlog hprovider hturn after
          refine ⟨_, hrefused, hcounted, fun h => absurd h hcancelled, ?_, ?_⟩
          · intro _ fault' hfault'
            obtain rfl := Except.error.inj (hresolve.symm.trans hfault')
            exact ⟨reason, hreason, rfl, hnothing⟩
          · exact fun _ session h => absurd (hresolve.symm.trans h) (by simp)
      | ok session =>
          obtain ⟨config, hwire⟩ := wire_of_resolve hresolve
          have htrace : ∃ stage,
              (w.run (.poll (.opening i) :: after)).attempts[i]? = some { b with stage } ∧
              w.Trace (w.run (.poll (.opening i) :: after)) (.poll (.opening i) :: after) i
                { b with stage } ⟨w.turns, w.now, session, config,
                  provider.create (w.history b.agent) config⟩ := by
            rcases hw.asked_run hb hfresh hlog hprovider hparent hresolve hwire rfl after with
              hasked | hconcluded
            · exact ⟨_, hasked.attempt, hasked.trace rfl⟩
            · exact Concluded.trace (hw.run _) rfl hconcluded
          obtain ⟨stage, hattempt, htrace⟩ := htrace
          refine ⟨stage, hattempt, hcounted, fun h => absurd h hcancelled, ?_, ?_⟩
          · exact fun _ fault h => absurd (hresolve.symm.trans h) (by simp)
          · intro _ session' hsession'
            obtain rfl := Except.ok.inj (hresolve.symm.trans hsession')
            exact ⟨config, provider, hwire, hprovider, htrace⟩

/-- Later than one lock-delay after its first turn, an attempt has a result. -/
theorem Beginning.result {u v : World α} {actions : List (Action α)} {i : Nat} {b : Attempt}
    (h : u.Beginning v actions i b)
    (hlate : ∀ session, b.requested.resolve = .ok session →
      u.now + wakeAt session.effectiveLockDelay.nanos < v.now) :
    ∃ result, b.result? = some result := by
  cases hparent : u.scopes.isCancelled b.parent with
  | true => exact ⟨_, (h.cancelled hparent).1⟩
  | false =>
      cases hresolve : b.requested.resolve with
      | error fault =>
          obtain ⟨reason, _, hresult, _⟩ := h.rejected hparent fault hresolve
          exact ⟨_, hresult⟩
      | ok session =>
          obtain ⟨_, _, _, _, htrace⟩ := h.asked hparent session hresolve
          exact Option.isSome_iff_exists.mp (htrace.inTime (hlate session hresolve))

/-- An attempt has its first turn before any time passes, and stands as `Beginning` says
from then on. -/
theorem Reachable.beginning_of_begin (hw : w.Reachable) {agent : Nat} (parent : Nat)
    {requested : Session} (hagent : agent < w.agents.length)
    (hsound : requested.resolve ≠ .error .ttlOverflow) {before : List (Action α)}
    (hbefore : .poll (.opening w.attempts.length) ∉ before) (after : List (Action α)) :
    let i := w.attempts.length
    let u := (w.step (.begin agent parent requested)).run before
    let actions := .poll (.opening i) :: after
    u.now = w.now ∧ u.log i = [] ∧
    ∃ stage, (u.run actions).attempts[i]? = some { agent, parent, requested, stage } ∧
      u.Beginning (u.run actions) actions i { agent, parent, requested, stage } := by
  intro i u actions
  have hu : u.Reachable := (hw.step _).run before
  obtain ⟨hmade, hempty, hnow⟩ := attempt_of_begin hw parent requested hagent
  obtain ⟨hb, hlog, hstill⟩ := fresh_run hmade rfl hbefore
  have hnothing := hlog.trans hempty
  exact ⟨hstill.trans hnow, hnothing, hu.beginning hb rfl hnothing hsound after⟩

/-- **A session begins, or nothing is left behind.** Let an attempt be made and let `u` be
the world in which it has its first turn; no time has passed by then. If the parent scope
is cancelled there, or else the configuration is rejected, this is the result, and the
attempt has done nothing. Otherwise the agent is asked once, with the resolved session,
and the attempt leaves behind what `Trace` says. In every course of events there is a
result. -/
theorem begins_or_leaves_nothing {w : World α} (hw : w.Reachable) (agent parent : Nat)
    (requested : Session) (hagent : agent < w.agents.length)
    (hsound : requested.resolve ≠ .error .ttlOverflow) :
    let i := w.attempts.length
    let made := w.step (.begin agent parent requested)
    (∀ before after, .poll (.opening i) ∉ before →
      let u := made.run before
      let actions := .poll (.opening i) :: after
      u.now = w.now ∧ u.log i = [] ∧
      ∃ stage, (u.run actions).attempts[i]? = some { agent, parent, requested, stage } ∧
        u.Beginning (u.run actions) actions i { agent, parent, requested, stage }) ∧
    (∀ course : Course made, ∃ n b result,
      (course.world n).attempts[i]? = some b ∧ b.result? = some result) := by
  intro i made
  refine ⟨fun before after hbefore =>
    hw.beginning_of_begin parent hagent hsound hbefore after, fun course => ?_⟩
  -- the lock-delay of the session, if it is one that is asked for
  obtain ⟨limit, hlimit⟩ : ∃ limit, ∀ session, requested.resolve = .ok session →
      wakeAt session.effectiveLockDelay.nanos = limit := by
    cases hresolve : requested.resolve with
    | error fault => exact ⟨0, fun _ h => absurd h (by simp)⟩
    | ok session =>
        refine ⟨wakeAt session.effectiveLockDelay.nanos, fun _ h => ?_⟩
        rw [Except.ok.inj h]
  obtain ⟨n, hn⟩ := course.unending (w.now + limit + 1)
  have hrun := course.world_eq_run n
  -- time has passed, so there has been a first turn
  have hturn : .poll (.opening i) ∈ course.actions n := by
    by_contra hnone
    obtain ⟨hattempt, _, hnow⟩ := attempt_of_begin hw parent requested hagent
    obtain ⟨_, _, hstill⟩ := fresh_run hattempt rfl hnone
    rw [← hrun] at hstill
    omega
  obtain ⟨before, after, hactions, hbefore⟩ := List.eq_append_cons_of_mem hturn
  rw [hactions, World.run_append] at hrun
  obtain ⟨hstill, _, stage, hstands, hbeginning⟩ :=
    hw.beginning_of_begin parent hagent hsound hbefore after
  have hlate : ∀ session, requested.resolve = .ok session →
      (made.run before).now + wakeAt session.effectiveLockDelay.nanos <
        ((made.run before).run (.poll (.opening i) :: after)).now := by
    intro session hsession
    rw [hlimit session hsession, hstill, ← hrun]
    omega
  obtain ⟨result, hresult⟩ := hbeginning.result hlate
  exact ⟨n, _, result, by rw [hrun]; exact hstands, hresult⟩

/-- An agent that does not answer when it is asked for a session. -/
def mute : Agent :=
  { Agent.scripted "s-1" (fun _ => ⟨none, .ok ()⟩) ⟨none, .ok ()⟩ with
    create := fun _ _ => ⟨none, .ok "s-1"⟩ }

/-- A session that is not worth waiting for longer than 20 ms. -/
def hasty : Session := { lockDelay := some (.ofMillis 20), ttl := some (.ofMillis 300) }

/-- What happens to the attempt after its first turn: its time goes by. -/
def unanswered : List (Action Unit) := [.advance 20, .poll (.opening 0), .advance 21]

theorem begins_or_leaves_nothing_of_unanswered :
    let u := (untouched [mute] {} 0).step (.begin 0 0 hasty)
    let v := u.run (.poll (.opening 0) :: unanswered)
    ∃ b, v.attempts[0]? = some b ∧
      b.result? = some (.error (.create (.timeout (.ofMillis 20)))) ∧
      (v.log 0).agentCalls = [.create ⟨none, .release, "0.02s", "0.3s"⟩] ∧
      (v.log 0).metrics = { createsError := 1 } := by
  intro u v
  have hparent : u.scopes.isCancelled 0 = false := by decide +kernel
  have hresolve : hasty.resolve = .ok hasty := by decide +kernel
  have hconfig : hasty.wire? = some ⟨none, .release, "0.02s", "0.3s"⟩ := by decide +kernel
  have hlimit : hasty.effectiveLockDelay = .ofMillis 20 := by decide +kernel
  have hlater : u.now + wakeAt hasty.effectiveLockDelay.nanos < v.now := by decide +kernel
  have hcount : (v.log 0).metrics = { createsError := 1 } := by decide +kernel
  obtain ⟨hmoments, _⟩ := begins_or_leaves_nothing (w := (untouched [mute] {} 0 : World Unit))
    (.start ..) 0 0 hasty (by decide) (by decide +kernel)
  obtain ⟨_, _, stage, hattempt, hstands⟩ := hmoments [] unanswered List.not_mem_nil
  obtain ⟨config, provider, hwire, hprovider, htrace⟩ := hstands.asked hparent hasty hresolve
  obtain rfl : mute = provider := Option.some.inj hprovider
  obtain rfl := Option.some.inj (hconfig.symm.trans hwire)
  obtain ⟨result, hresult⟩ := Option.isSome_iff_exists.mp (htrace.inTime hlater)
  obtain ⟨before, _, _, _, _, _, _, hverdict⟩ := htrace.decided result hresult
  cases result with
  | ok c =>
      have hcreations : (v.log 0).creations = (1, 0) := (htrace.begun c hresult).1
      unfold Log.creations at hcreations
      rw [hcount] at hcreations
      exact absurd hcreations (by decide)
  | error e =>
      obtain ⟨hcalls, hmetrics⟩ := htrace.failed e hresult
      refine ⟨_, hattempt, ?_, hcalls, hcount⟩
      rw [hresult]
      -- the failure has been counted, so the scope was not cancelled
      have hcause : Except.error e = (Attempt.verdict ((u.run before).scopes.isCancelled 0)
          ⟨none, .ok "s-1"⟩ hasty.effectiveLockDelay).map ({ hasty with id := · }) := hverdict
      cases hmoment : (u.run before).scopes.isCancelled 0 with
      | true =>
          rw [hmoment] at hcause
          obtain rfl : e = .parentCancelled := Except.error.inj hcause
          exact absurd (hcount.symm.trans hmetrics) (by decide)
      | false =>
          rw [hmoment, hlimit] at hcause
          obtain rfl : e = .create (.timeout (.ofMillis 20)) := Except.error.inj hcause
          rfl

end World

end Tenure.Lifecycle
