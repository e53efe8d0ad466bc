import Mathlib.Data.List.Induction
import Tenure.Proofs.Lifecycle.Tokens

/-!
# The terminal error is written once and is truthful

Who gets to write the terminal error is a race. Whatever its outcome, the error
that is written stays, and it names something that had happened by then.

* `Context.Reason` — what a turn that ends a context may give as the reason;
* `World.Reachable.dropped_iff` — a context counts as given up if and only if it was
  dropped;
* `World.recorded_once` — the moment at which the error was written, and why;
* `World.issued_once` — the moment at which the last renewal was issued;
* `terminal_error_truthful` — the whole of it, for every run.
-/

namespace Tenure.Lifecycle

variable {α : Type}

/-! ## Reasons -/

namespace Context

/-- What an actor that ends the context `c` may give as the reason. -/
inductive Reason (s : Surroundings) (c : Context) : Actor → SessionError → Prop
  | asked {asks : Prop} (hasks : asks) : Reason s c (.caller asks) .cancelled
  | givenUp (hdropped : c.dropped = true) : Reason s c .renewal .cancelled
  | orphaned (hparent : s.parentCancelled = true) : Reason s c .renewal .parentCancelled
  | tooLate (cause : ClientError) : Reason s c .renewal (.renewFailed c.session.id cause)

theorem Move.reason {s : Surroundings} {actor : Actor} {c c' : Context} {events : List Event}
    (h : Move s actor c events c') (hlive : c.error = none) {e : SessionError}
    (he : c'.error = some e) : c.Reason s actor e := by
  have hsame : c'.error = c.error → c.Reason s actor e := by
    intro hsame
    rw [hsame, hlive] at he
    exact absurd he (by simp)
  cases h with
  | orphaned _ _ hparent =>
      obtain rfl := Option.some.inj he
      exact .orphaned hparent
  | givenUp _ _ hdropped =>
      obtain rfl := Option.some.inj he
      exact .givenUp hdropped
  | expired _ _ _ _ =>
      obtain rfl := Option.some.inj he
      exact .tooLate _
  | cancel hasks _ =>
      obtain rfl := Option.some.inj he
      exact .asked hasks
  | _ => exact hsame rfl

/-- No task gives the context up. -/
theorem Move.dropped_of_task {s : Surroundings} {actor : Actor} {c c' : Context}
    {events : List Event} (h : Move s actor c events c') (htask : actor.isTask = true) :
    c'.dropped = c.dropped := by
  cases h with
  | drop hactor c => exact absurd (hactor.symm.trans htask) (by simp)
  | _ => rfl

theorem Moves.dropped_of_task {s : Surroundings} {actor : Actor} {c c' : Context}
    {events : List Event} (h : Moves s actor c events c') (htask : actor.isTask = true) :
    c'.dropped = c.dropped := by
  induction h with
  | none c => rfl
  | cons first _ ih => exact ih.trans (first.dropped_of_task htask)

/-- The reason is one that stood at the beginning of the turn. -/
theorem Moves.reason {s : Surroundings} {actor : Actor} {c c' : Context}
    {events : List Event} (h : Moves s actor c events c') (hlive : c.error = .none)
    {e : SessionError} (he : c'.error = some e) : c.Reason s actor e := by
  induction h with
  | none c => exact absurd (hlive.symm.trans he) (by simp)
  | @cons c c₁ c₂ events more first rest ih =>
      cases herror : c₁.error with
      | some e₁ =>
          obtain rfl := Option.some.inj ((rest.error_of_error herror).symm.trans he)
          exact first.reason hlive herror
      | none =>
          -- the first move did not end the context, so it has not touched what the reason rests on
          have hlater := ih herror he
          have hdropped := first.dropped_of_task
          have hsession := first.frame.1
          cases hlater with
          | asked hasks => exact .asked hasks
          | givenUp h => exact .givenUp ((hdropped rfl).symm.trans h)
          | orphaned hparent => exact .orphaned hparent
          | tooLate cause => rw [hsession]; exact .tooLate cause

/-- Nobody takes a context back that has been given up. -/
theorem Move.dropped_of_dropped {s : Surroundings} {actor : Actor} {c c' : Context}
    {events : List Event} (h : Move s actor c events c') (hdropped : c.dropped = true) :
    c'.dropped = true := by
  cases h <;> first | exact hdropped | rfl

/-- A move gives the context up where it leaves the event of that, and nowhere else. -/
theorem Move.dropped_iff {s : Surroundings} {actor : Actor} {c c' : Context}
    {events : List Event} (h : Move s actor c events c') :
    c'.dropped = true ↔ c.dropped = true ∨ .contextDropped ∈ events := by
  constructor
  · intro hdropped
    cases h with
    | drop _ c => exact .inr List.mem_cons_self
    | _ => exact .inl hdropped
  · rintro (hbefore | hnow)
    · exact h.dropped_of_dropped hbefore
    · cases h with
      | drop _ c => rfl
      | work c hwork => exact absurd (hwork _ hnow) Bool.false_ne_true
      | missed _ _ hfailed _ => cases hfailed <;> simp at hnow
      | expired _ _ hfailed _ => cases hfailed <;> simp at hnow
      | destroyOver _ hover => cases hover <;> simp at hnow
      | _ => simp at hnow

/-- A context has been given up if and only if it was seen to be. -/
theorem dropped_invariant : Invariant fun _ c log _ =>
    (c.dropped = true ↔ .contextDropped ∈ log.map (·.2)) where
  start _ _ _ _ _ _ log _ hopening := by
    refine ⟨fun h => absurd h Bool.false_ne_true, fun hmem => ?_⟩
    obtain ⟨x, hx, hevent⟩ := List.mem_map.mp hmem
    have hfirst := hopening x hx
    rw [hevent] at hfirst
    exact absurd hfirst Bool.false_ne_true
  move s actor c c' events log _ h hmove := by
    rw [hmove.dropped_iff, h, List.map_append, List.mem_append, List.map_map]
    simp [Function.comp_def]
  pass _ _ _ _ _ _ h _ := h

end Context

namespace World

/-- A context counts as given up if and only if the journal says that it was dropped. -/
theorem Reachable.dropped_iff {w : World α} (hw : w.Reachable) {i : Nat} {c : Context}
    (hc : w.context? i = some c) : c.dropped = true ↔ .contextDropped ∈ w.eventsOf i := by
  rw [eventsOf_eq]
  exact Context.dropped_invariant.holds hw hc

/-- The action ends the context `c` of attempt `i` with the error `e`. -/
structure Records (w : World α) (i : Nat) (a : Action α) (c : Context) (e : SessionError) :
    Prop where
  before : w.context? i = some c
  live : c.error = none
  after : ((w.step a).context? i).map (·.error) = some (some e)

/-- What has to be the case where an action ends the context `c` of attempt `i`, for the
terminal error to be truthful. No context ends with an error of its configuration or of
its creation. -/
def Justifies (w : World α) (i : Nat) (a : Action α) (c : Context) : SessionError → Prop
  | .cancelled => w.Asks i a ∨ c.dropped = true ∧ .contextDropped ∈ w.eventsOf i
  | .parentCancelled => w.scopes.isCancelled c.parent = true
  | .renewFailed id _ => id = c.session.id
  | .config _ => False
  | .create _ => False

theorem asks_of_actor {w : World α} {i : Nat} {a : Action α} {asks : Prop}
    (h : w.actor i a = .caller asks) (hasks : asks) : w.Asks i a := by
  unfold actor at h
  split at h
  all_goals first
    | (injection h with h; exact h ▸ hasks)
    | exact absurd h (by simp)

theorem justifies_of_reason {w : World α} (hw : w.Reachable) {i : Nat} {a : Action α}
    {c : Context} (hc : w.context? i = some c) {agent : Agent} {e : SessionError}
    (h : c.Reason (w.surroundings agent c) (w.actor i a) e) : w.Justifies i a c e := by
  generalize hactor : w.actor i a = actor at h
  cases h with
  | asked hasks => exact .inl (asks_of_actor hactor hasks)
  | givenUp hdropped => exact .inr ⟨hdropped, (hw.dropped_iff hc).mp hdropped⟩
  | orphaned hparent => exact hparent
  | tooLate cause => exact rfl

/-- A terminal error was written at some moment of the run, and what it says was the case
then. -/
theorem recorded_once {start : World α} (hstart : start.Reachable) {i : Nat}
    (hnone : start.context? i = none) {actions : List (Action α)} {c : Context}
    (hc : (start.run actions).context? i = some c) {e : SessionError}
    (he : c.error = some e) :
    start.Once actions fun u a => ∃ cu, u.Records i a cu e ∧ u.Justifies i a cu e := by
  induction actions using List.reverseRecOn generalizing c with
  | nil => exact absurd (hnone.symm.trans hc) (by simp)
  | append_singleton actions a ih =>
      have hw := hstart.run actions
      rw [run_concat] at hc
      rcases context?_before hc with ⟨cu, _, hbefore, _⟩ | ⟨_, b, session, id, _, _, _, rfl, _⟩
      -- the error was there before this step, or this step writes it
      · cases hlive : cu.error with
        | some e₀ =>
            obtain ⟨c', hc', he'⟩ := hw.error_step hbefore hlive a
            obtain rfl := Option.some.inj (hc.symm.trans hc')
            obtain rfl := Option.some.inj (he.symm.trans he')
            exact (ih hbefore hlive).earlier a
        | none =>
            rcases hw.step_context hbefore a with ⟨t, hpassed, _⟩ |
              ⟨agent, c', _, _, _, hc', _, _, hmoves⟩
            · rw [hpassed] at hc
              obtain rfl := Option.some.inj (hbefore.symm.trans hc)
              exact absurd (hlive.symm.trans he) (by simp)
            · obtain rfl := Option.some.inj (hc.symm.trans hc')
              refine .last ⟨cu, ⟨hbefore, hlive, ?_⟩, ?_⟩
              · rw [hc, Option.map_some, he]
              · exact justifies_of_reason hw hbefore (hmoves.reason hlive he)
      · exact absurd he (by simp [Context.start])

/-! ## The last renewal -/

/-- A renewal of attempt `i` is issued in this state, with `answer` as the answer to it.
The context is live, nobody has given it up, its parent scope is not cancelled, and
`times` are the renewals up to this one. -/
structure Issues (w : World α) (i : Nat) (c : Context) (times : List Nat)
    (answer : Answer Unit) : Prop where
  context : w.context? i = some c
  due : c.RenewalDue w.now (w.scopes.isCancelled c.parent)
  kept : .contextDropped ∉ w.eventsOf i
  times : times = (w.log i).renewalTimes ++ [w.now]
  answer : ∃ agent, w.agents[c.agent]? = some agent ∧
    answer = agent.renew (w.history c.agent) c.session.id

/-- A step issues one renewal or none. -/
theorem Reachable.renewal_step {w : World α} (hw : w.Reachable) {i : Nat} {c : Context}
    (hc : w.context? i = some c) (a : Action α) :
    ((w.step a).log i).renewalTimes = (w.log i).renewalTimes ∧
        (w.step a).renewalAnswers i = w.renewalAnswers i ∨
      ∃ answer, w.Issues i c ((w.step a).log i).renewalTimes answer ∧
        (w.step a).renewalAnswers i = w.renewalAnswers i ++ [answer] := by
  have hg := hw.grounded
  obtain ⟨_, agent, hagent⟩ := hg.context_agent hc
  obtain ⟨c', events, _, hlog, heffect⟩ := step_effect hc a
  have hfirst := heffect.renewsFirst (hg.signalled i c hc)
  have hanswers := renewalAnswers_of_effect hg hc hagent hlog hfirst
  rcases renewalTimes_of_effect hlog hanswers hfirst with hsame | ⟨hdue, htimes, hnew⟩
  · exact .inl hsame
  · have hkept : .contextDropped ∉ w.eventsOf i := by
      rw [← hw.dropped_iff hc, hdue.owner]
      exact Bool.false_ne_true
    exact .inr ⟨_, ⟨hc, hdue, hkept, htimes, agent, hagent, rfl⟩, hnew⟩

/-- Opening events tell of no renewals. -/
theorem renewalTimes_of_opening {log : Log} (h : ∀ x ∈ log, x.2.isOpening = true) :
    log.renewalTimes = [] :=
  Log.renewalTimes_unmarked [] fun x hx => Event.isMark_of_isOpening (h x hx)

/-- The last renewal was issued at some moment of the run. -/
theorem issued_once {start : World α} (hstart : start.Reachable) {i : Nat}
    (hnone : start.context? i = none) {actions : List (Action α)} {since : Nat}
    {answer : Answer Unit}
    (htime : ((start.run actions).log i).renewalTimes.getLast? = some since)
    (hanswer : ((start.run actions).renewalAnswers i).getLast? = some answer) :
    start.Once actions fun u _ => u.now = since ∧
      ∃ cu, u.Issues i cu ((start.run actions).log i).renewalTimes answer := by
  induction actions using List.reverseRecOn with
  | nil =>
      rw [run_nil, renewalTimes_of_opening (hstart.grounded.opening i hnone)] at htime
      exact absurd htime (by simp)
  | append_singleton actions a ih =>
      have hw := hstart.run actions
      rw [run_concat] at htime hanswer ⊢
      cases hc : (start.run actions).context? i with
      | none =>
          -- a context that appears in this step has renewed nothing yet
          rw [renewalTimes_of_opening (hw.grounded.opening_step hc a)] at htime
          exact absurd htime (by simp)
      | some c =>
          rcases hw.renewal_step hc a with ⟨htimes, hanswers⟩ | ⟨given, hissues, hanswers⟩
          · rw [htimes] at htime ⊢
            rw [hanswers] at hanswer
            exact (ih htime hanswer).earlier a
          · rw [hissues.times, List.getLast?_concat] at htime
            rw [hanswers, List.getLast?_concat] at hanswer
            obtain rfl := Option.some.inj hanswer
            exact .last ⟨Option.some.inj htime, c, hissues⟩

/-- The renewal that a context failed with was the last one to be issued, at one TTL or
more after the last one that succeeded, and what it failed with is what came of it. -/
theorem failed_once {start : World α} (hstart : start.Reachable) {i : Nat}
    (hnone : start.context? i = none) {actions : List (Action α)} {c : Context}
    (hc : (start.run actions).context? i = some c) {id : String} {cause : ClientError}
    (he : c.error = some (.renewFailed id cause)) :
    id = c.session.id ∧ start.Once actions fun u _ => ∃ cu answer,
      u.Issues i cu ((start.run actions).log i).renewalTimes answer ∧
      answer.within c.period = .error cause ∧
      toNanos (((start.run actions).log i).lastRenewal.getD c.started) + c.ttl.nanos ≤
        toNanos u.now := by
  have hbooks := Context.bookkeeping_invariant.holds (hstart.run actions) hc
  obtain ⟨hid, since, answer, hlate⟩ := hbooks.failed id cause he
  refine ⟨hid, (issued_once hstart hnone hlate.time hlate.answered).imp fun u a h => ?_⟩
  obtain ⟨rfl, cu, hissues⟩ := h
  exact ⟨cu, answer, hissues, hlate.outcome, hlate.late⟩

/-- **The terminal error is written once and is truthful.** In every run, from the moment
at which there is a terminal error it is the same one. It is never an error of the
configuration or of the creation, it was written where what it says was the case, and if
it blames a renewal, that was the last one that was issued, too late, to a live context
that nobody had given up. The error, the end that is signalled and the tokens go together,
so whoever is told a terminal error is told this one. -/
theorem terminal_error_truthful (agents : List Agent) (scopes : Scopes) (now : Nat)
    (actions : List (Action α)) {i : Nat} {c : Context}
    (hc : ((untouched agents scopes now).run actions).context? i = some c) :
    let start : World α := untouched agents scopes now
    let w := start.run actions
    (∀ e, c.error = some e →
      (∀ more, ∃ c', (w.run more).context? i = some c' ∧ c'.error = some e) ∧
      (∀ reason, e ≠ .config reason) ∧ (∀ cause, e ≠ .create cause) ∧
      start.Once actions fun u a => ∃ cu, u.Records i a cu e ∧ u.Justifies i a cu e) ∧
    (∀ id cause, c.error = some (.renewFailed id cause) → id = c.session.id ∧
      start.Once actions fun u _ => ∃ cu answer,
        u.Issues i cu (w.log i).renewalTimes answer ∧
        answer.within c.period = .error cause ∧
        toNanos ((w.log i).lastRenewal.getD c.started) + c.ttl.nanos ≤ toNanos u.now) ∧
    c.done = c.error.isSome ∧
    (∀ k b, c.tokens[k]? = some b →
      (b = true ↔ c.done = true ∨ start.Once actions fun u a => u.CancelsToken i k a)) ∧
    c.handOutToken.tokens = c.tokens ++ [c.done] ∧
    (c.done = true ∨ c.renewalExited = true ∨ c.destroyed = true →
      c.error = some c.terminalError) ∧
    (∀ (j : Nat) (k : Caller α) (e : SessionError), w.callers[j]? = some k →
      k.attempt = i → k.told? = some e → c.error = some e) := by
  intro start w
  have hstart : start.Reachable := .start agents scopes now
  have hnone : start.context? i = none := rfl
  have hw := hstart.run actions
  have hordered := hw.ordered hc
  refine ⟨fun e he => ?_, fun id cause he => failed_once hstart hnone hc he,
    hw.grounded.signalled i c hc, fun k b hk => token_cancelled_iff hstart hnone hc hk, rfl,
    ?_, ?_⟩
  · have hrecorded := recorded_once hstart hnone hc he
    refine ⟨hw.keeps hc (fun hmove => hmove.error_of_error) he, ?_, ?_, hrecorded⟩
    · rintro reason rfl
      obtain ⟨_, _, _, _, _, _, hfalse⟩ := hrecorded
      exact hfalse
    · rintro cause rfl
      obtain ⟨_, _, _, _, _, _, hfalse⟩ := hrecorded
      exact hfalse
  · rintro (hdone | hexited | hdestroyed)
    · exact Context.error_eq_terminalError (hordered.done hdone)
    · exact Context.error_eq_terminalError (hordered.exited hexited)
    · exact Context.error_eq_terminalError (hordered.destroyed hdestroyed)
  · rintro j k e hk rfl htold
    obtain ⟨c', hc', he⟩ := hw.told hk htold
    obtain rfl := Option.some.inj (hc.symm.trans hc')
    exact he

/-- An agent that never answers a renewal. -/
def silent : Agent := .scripted "s-1" (fun _ => ⟨none, .ok ()⟩) ⟨some 0, .ok ()⟩

/-- The session is lost at the third renewal; a caller that closes the context after that
is told so. -/
def lostActions : List (Action Unit) :=
  [.begin 0 0 { lockDelay := some (.ofMillis 20), ttl := some (.ofMillis 300) },
    .poll (.opening 0), .advance 100, .poll (.renewal 0), .advance 200, .poll (.renewal 0),
    .poll (.renewal 0), .advance 300, .poll (.renewal 0), .poll (.renewal 0), .advance 400,
    .poll (.renewal 0), .call 0 .close, .poll (.caller 0), .poll (.destruction 0),
    .poll (.renewal 0), .poll (.caller 0)]

def lost : World Unit := (untouched [silent] {} 0).run lostActions

theorem terminal_error_truthful_of_lost :
    ∃ c k, lost.context? 0 = some c ∧ lost.callers[0]? = some k ∧
      k.told? = some (.renewFailed "s-1" (.timeout (.ofMillis 100))) ∧
      c.error = some (.renewFailed "s-1" (.timeout (.ofMillis 100))) ∧
      c.session.id = "s-1" := by
  have hc : lost.context? 0 = some ((lost.context? 0).get (by decide +kernel)) :=
    (Option.some_get _).symm
  have hk : lost.callers[0]? = some (lost.callers[0]?.get (by decide +kernel)) :=
    (Option.some_get _).symm
  have hattempt : (lost.callers[0]?.get (by decide +kernel)).attempt = 0 := by decide +kernel
  have htold : (lost.callers[0]?.get (by decide +kernel)).told? =
      some (.renewFailed "s-1" (.timeout (.ofMillis 100))) := by decide +kernel
  obtain ⟨_, hfailed, _, _, _, _, hcallers⟩ :=
    terminal_error_truthful [silent] {} 0 lostActions hc
  have he := hcallers 0 _ _ hk hattempt htold
  exact ⟨_, _, hc, hk, htold, he, (hfailed _ _ he).1.symm⟩

end World

end Tenure.Lifecycle
