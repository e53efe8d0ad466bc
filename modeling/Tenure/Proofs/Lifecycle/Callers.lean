import Tenure.Proofs.Lifecycle.Renewals
import Tenure.Proofs.Lifecycle.Teardown

/-!
# What callers are told

A caller that closes a context, or that runs work under it, is told the terminal
error when the context is over. It looks the error up at a moment when there is
one, so what it is told is what was recorded.

* `Context.Ordered` — what an error has to be there for: the signal of the end, the
  end of the renewal task and the end of the destroy attempt;
* `World.callers_step` — what an action can make of a caller;
* `World.Reachable.told` — whoever was told a terminal error was told the one of
  the context.
-/

namespace Tenure.Lifecycle

variable {α : Type}

namespace Context

/-- Nothing is over before there is a terminal error. -/
structure Ordered (c : Context) : Prop where
  done : c.done = true → c.error.isSome = true
  exited : c.renewalExited = true → c.error.isSome = true
  destroyed : c.destroyed = true → c.error.isSome = true

theorem Signalled.error_of_done {c : Context} (hs : c.Signalled) (h : c.done = true) :
    c.error.isSome = true := by
  unfold Signalled at hs
  rw [← hs, h]

theorem isOver_of_renewalExited {c : Context} (h : c.renewalExited = true) :
    c.renewal.isOver = true := by
  unfold renewalExited at h
  cases hrenewal : c.renewal <;> rw [hrenewal] at h <;>
    first | rfl | exact absurd h Bool.false_ne_true

theorem terminalError_of_error {c : Context} {e : SessionError} (h : c.error = some e) :
    c.terminalError = e := by
  unfold terminalError
  rw [h]
  rfl

/-- With a terminal error there is nothing to fall back from. -/
theorem error_eq_terminalError {c : Context} (h : c.error.isSome = true) :
    c.error = some c.terminalError := by
  obtain ⟨e, he⟩ := Option.isSome_iff_exists.mp h
  rw [terminalError_of_error he, he]

/-- The error stays. -/
theorem Move.error_of_error {s : Surroundings} {actor : Actor} {c c' : Context}
    {events : List Event} (h : Move s actor c events c') {e : SessionError}
    (he : c.error = some e) : c'.error = some e := by
  cases h.atTheEnd with
  | apart herror _ _ _ _ => exact herror.trans he
  | ends _ hlive _ _ _ _ _ => exact absurd (hlive.symm.trans he) (by simp)
  | calls _ _ herror _ _ _ _ => exact herror.trans he
  | settles _ _ herror _ _ _ _ => exact herror.trans he

theorem Moves.error_of_error {s : Surroundings} {actor : Actor} {c c' : Context}
    {events : List Event} (h : Moves s actor c events c') {e : SessionError}
    (he : c.error = some e) : c'.error = some e :=
  h.keeps (fun hmove => hmove.error_of_error) he

end Context

namespace World

theorem Reachable.ordered {w : World α} (hw : w.Reachable) {i : Nat} {c : Context}
    (hc : w.context? i = some c) : c.Ordered := by
  have hbooks := Context.bookkeeping_invariant.holds hw hc
  have htorn := Context.teardown_invariant.holds hw hc
  refine ⟨hbooks.signalled.error_of_done, fun hexited => ?_, fun hdestroyed => ?_⟩
  · exact hbooks.signalled.error_of_done
      (hbooks.stopped (Context.isOver_of_renewalExited hexited))
  · cases herror : c.error with
    | none =>
        rw [(htorn.live herror).destroyed] at hdestroyed
        exact absurd hdestroyed Bool.false_ne_true
    | some e => rfl

/-- The terminal error of a context is the same after every step. -/
theorem Reachable.error_step {w : World α} (hw : w.Reachable) {i : Nat} {c : Context}
    (hc : w.context? i = some c) {e : SessionError} (he : c.error = some e) (a : Action α) :
    ∃ c', (w.step a).context? i = some c' ∧ c'.error = some e :=
  hw.keeps_step hc (fun hmove => hmove.error_of_error) he a

end World

/-! ## Callers that have been told -/

/-- The terminal error that an outcome tells of. -/
def Outcome.told? : Outcome α → Option SessionError
  | .closed e => some e
  | .lost e => some e
  | _ => none

/-- The terminal error that a caller was told. -/
def Caller.told? (k : Caller α) : Option SessionError := k.outcome?.bind (·.told?)

namespace Caller

theorem told?_pollAwaitRenewal {k : Caller α} {c : Context} (h : c.Ordered) {e : SessionError}
    (he : (k.pollAwaitRenewal c).1.told? = some e) : c.error = some e := by
  unfold pollAwaitRenewal at he
  split at he
  · rename_i hexited
    obtain rfl := Option.some.inj he
    exact Context.error_eq_terminalError (h.exited hexited)
  · exact absurd he (by simp [told?, outcome?])

theorem told?_pollAwaitDestroyed {k : Caller α} {c : Context} (h : c.Ordered) {closing : Bool}
    {e : SessionError} (he : (k.pollAwaitDestroyed c closing).1.told? = some e) :
    c.error = some e := by
  unfold pollAwaitDestroyed at he
  split at he
  · split at he
    · exact told?_pollAwaitRenewal h he
    · exact absurd he (by simp [told?, outcome?, Outcome.told?])
  · exact absurd he (by simp [told?, outcome?])

/-- A caller that ends the context has to wait, so it is told nothing in that turn. -/
theorem told?_pollCancel {k : Caller α} {c : Context} (h : c.Ordered) {closing : Bool}
    {e : SessionError} (he : (k.pollCancel c closing).1.told? = some e) : c.error = some e := by
  unfold pollCancel at he
  by_cases hlive : c.error = none
  -- nothing can have been destroyed while the context was live
  · have hwaits : c.destroyed = false := by
      refine Bool.eq_false_iff.mpr fun hdestroyed => ?_
      have hended := h.destroyed hdestroyed
      rw [hlive] at hended
      exact absurd hended Bool.false_ne_true
    have hwaits' : (c.ended .cancelled).destroyed = false := hwaits
    rw [Context.conclude_of_live _ hlive] at he
    unfold pollAwaitDestroyed at he
    simp only [hwaits', Bool.false_eq_true, if_false] at he
    exact absurd he (by simp [told?, outcome?])
  · rw [Context.conclude_of_over _ hlive] at he
    exact told?_pollAwaitDestroyed h he

/-- What a caller is told in a turn is the terminal error of the context. -/
theorem told?_poll {k : Caller α} {now : Nat} {c : Context} (h : c.Ordered) {e : SessionError}
    (he : (k.poll now c).1.told? = some e) : k.told? = some e ∨ c.error = some e := by
  unfold poll at he
  cases hactivity : k.activity with
  | cancel => rw [hactivity] at he; exact .inr (told?_pollCancel h he)
  | close => rw [hactivity] at he; exact .inr (told?_pollCancel h he)
  | awaitDestroyed closing => rw [hactivity] at he; exact .inr (told?_pollAwaitDestroyed h he)
  | awaitRenewal => rw [hactivity] at he; exact .inr (told?_pollAwaitRenewal h he)
  | awaitEnd =>
      rw [hactivity] at he
      dsimp only at he
      split at he
      · exact absurd he (by simp [told?, outcome?, Outcome.told?])
      · exact .inl he
  | scope work =>
      rw [hactivity] at he
      dsimp only at he
      split at he
      · rename_i hdone
        obtain rfl := Option.some.inj he
        exact .inr (Context.error_eq_terminalError (h.done hdone))
      · split at he <;> exact absurd he (by simp [told?, outcome?, Outcome.told?])
  | perform work =>
      rw [hactivity] at he
      dsimp only at he
      split at he <;> exact absurd he (by simp [told?, outcome?, Outcome.told?])
  | returned o => rw [hactivity] at he; exact .inl he
  | abandoned => rw [hactivity] at he; exact .inl he

/-- A caller that is given up is told nothing. -/
theorem told?_abandon {k : Caller α} {c : Context} {e : SessionError}
    (he : (k.abandon c).1.told? = some e) : k.told? = some e := by
  unfold abandon at he
  dsimp only at he
  split at he <;> first
    | exact he
    | exact absurd he (by simp [told?, outcome?])

theorem attempt_pollAwaitRenewal (k : Caller α) (c : Context) :
    (k.pollAwaitRenewal c).1.attempt = k.attempt := by
  unfold pollAwaitRenewal
  split <;> rfl

theorem attempt_pollAwaitDestroyed (k : Caller α) (c : Context) (closing : Bool) :
    (k.pollAwaitDestroyed c closing).1.attempt = k.attempt := by
  unfold pollAwaitDestroyed
  split
  · split
    · exact attempt_pollAwaitRenewal k c
    · rfl
  · rfl

/-- A caller stays with its attempt. -/
theorem attempt_poll (k : Caller α) (now : Nat) (c : Context) :
    (k.poll now c).1.attempt = k.attempt := by
  unfold poll
  cases k.activity with
  | cancel => exact attempt_pollAwaitDestroyed k _ false
  | close => exact attempt_pollAwaitDestroyed k _ true
  | awaitDestroyed closing => exact attempt_pollAwaitDestroyed k c closing
  | awaitRenewal => exact attempt_pollAwaitRenewal k c
  | awaitEnd => dsimp only; split <;> rfl
  | scope work =>
      dsimp only
      split
      · rfl
      · split <;> rfl
  | perform work => dsimp only; split <;> rfl
  | returned o => rfl
  | abandoned => rfl

theorem attempt_abandon (k : Caller α) (c : Context) : (k.abandon c).1.attempt = k.attempt := by
  unfold abandon
  dsimp only
  split <;> rfl

end Caller

namespace World

/-! ## What becomes of callers -/

/-- Where the caller `k'` with index `j` comes from in a step: it was there, it has just
come, it had a turn, or it was given up. -/
inductive CallerStep (w : World α) (a : Action α) (j : Nat) : Caller α → Prop
  | same {k : Caller α} (hk : w.callers[j]? = some k) : CallerStep w a j k
  | comes {i : Nat} {demand : Demand α} (ha : a = .call i demand)
      (hc : (w.context? i).isSome = true) : CallerStep w a j ⟨i, demand.activity⟩
  | polled {k : Caller α} {c : Context} (hk : w.callers[j]? = some k)
      (hc : w.context? k.attempt = some c) : CallerStep w a j (k.poll w.now c).1
  | abandoned {k : Caller α} {c : Context} (hk : w.callers[j]? = some k)
      (hc : w.context? k.attempt = some c) : CallerStep w a j (k.abandon c).1

/-- Whoever asks is the last of the callers. -/
theorem step_call {w : World α} {i : Nat} {c : Context} (hc : w.context? i = some c)
    (demand : Demand α) : w.step (.call i demand) =
      { w with callers := w.callers ++ [⟨i, demand.activity⟩] } := by
  have hthere : (w.context? i).isSome = true := by rw [hc]; rfl
  exact if_pos hthere

theorem callers_pollAttempt (w : World α) (i : Nat) : (w.pollAttempt i).callers = w.callers := by
  unfold pollAttempt
  split
  · rfl
  · split <;> rfl

theorem callers_pollContext (w : World α) (i : Nat)
    (turn : Surroundings → Context → Context × List Event) :
    (w.pollContext i turn).callers = w.callers := by
  unfold pollContext
  split
  · rfl
  · split <;> rfl

theorem callers_updateContext (w : World α) (i : Nat) (f : Context → Context)
    (events : List Event) : (w.updateContext i f events).callers = w.callers := by
  unfold updateContext
  split <;> rfl

/-- Putting a caller back concerns that caller only. -/
theorem callerStep_of_set {w : World α} {a : Action α} {j l : Nat} {k' new : Caller α}
    (hnew : w.CallerStep a l new) (h : (w.callers.set l new)[j]? = some k') :
    w.CallerStep a j k' := by
  rw [List.getElem?_set] at h
  split at h
  · rename_i hlj
    split at h
    · obtain rfl := Option.some.inj h
      exact hlj ▸ hnew
    · exact absurd h (by simp)
  · exact .same h

/-- A caller after a step comes from one of these places. -/
theorem callers_step {w : World α} {a : Action α} {j : Nat} {k' : Caller α}
    (h : (w.step a).callers[j]? = some k') : w.CallerStep a j k' := by
  have hsame : (w.step a).callers = w.callers → w.CallerStep a j k' :=
    fun hcallers => .same (hcallers ▸ h)
  cases a with
  | begin agent parent session =>
      refine hsame ?_
      show (if _ then _ else _ : World α).callers = _
      split <;> rfl
  | poll p =>
      cases p with
      | opening i => exact hsame (callers_pollAttempt w i)
      | renewal i => exact hsame (callers_pollContext w i _)
      | destruction i => exact hsame (callers_pollContext w i _)
      | caller l =>
          have hpoll : (w.pollCaller l).callers[j]? = some k' := h
          unfold pollCaller at hpoll
          split at hpoll
          · exact .same hpoll
          · rename_i k hk
            split at hpoll
            · exact .same hpoll
            · rename_i c hc
              exact callerStep_of_set (.polled hk hc) hpoll
  | call i demand =>
      have hcall : (if _ then _ else _ : World α).callers[j]? = some k' := h
      split at hcall
      · rename_i hthere
        rw [List.getElem?_append] at hcall
        split at hcall
        · exact .same hcall
        · obtain rfl := List.mem_singleton.mp (List.mem_of_getElem? hcall)
          exact .comes rfl hthere
      · exact .same hcall
  | abandon l =>
      have habandon : (w.abandonCaller l).callers[j]? = some k' := h
      unfold abandonCaller at habandon
      split at habandon
      · exact .same habandon
      · rename_i k hk
        split at habandon
        · exact .same habandon
        · rename_i c hc
          exact callerStep_of_set (.abandoned hk hc) habandon
  | drop i => exact hsame (callers_updateContext w i _ _)
  | cancelScope i => exact hsame rfl
  | handOutToken i => exact hsame (callers_updateContext w i _ _)
  | cancelToken i l => exact hsame (callers_updateContext w i _ _)
  | advance t =>
      refine hsame ?_
      show (if _ then _ else _ : World α).callers = _
      split <;> rfl

/-- What an action makes of the caller `k` with index `j` and of its context `c`: the caller
has a turn, it is given up, or it waits, and then others may act on the context. -/
inductive CallerNext (w : World α) (j : Nat) (k : Caller α) (c : Context) :
    Action α → Caller α → Context → Prop
  | waits {a : Action α} (hturn : a ≠ .poll (.caller j)) (hgiven : a ≠ .abandon j)
      (c' : Context) : CallerNext w j k c a k c'
  | polled :
      CallerNext w j k c (.poll (.caller j)) (k.poll w.now c).1 (k.poll w.now c).2.1
  | abandoned : CallerNext w j k c (.abandon j) (k.abandon c).1 (k.abandon c).2.1

/-- Only its own turns and giving it up concern a caller. -/
theorem callers_of_ne {w : World α} {j : Nat} {k : Caller α} (hk : w.callers[j]? = some k)
    {a : Action α} (hturn : a ≠ .poll (.caller j)) (hgiven : a ≠ .abandon j) :
    (w.step a).callers[j]? = some k := by
  have hset : ∀ {l : Nat} (x : Caller α), l ≠ j → (w.callers.set l x)[j]? = some k := by
    intro l x hne
    rw [List.getElem?_set_ne hne]
    exact hk
  cases a with
  | begin agent parent session =>
      show (if _ then _ else _ : World α).callers[j]? = _
      split <;> exact hk
  | poll p =>
      cases p with
      | opening i =>
          show (w.pollAttempt i).callers[j]? = _
          rw [callers_pollAttempt]
          exact hk
      | renewal i =>
          show (w.pollContext i _).callers[j]? = _
          rw [callers_pollContext]
          exact hk
      | destruction i =>
          show (w.pollContext i _).callers[j]? = _
          rw [callers_pollContext]
          exact hk
      | caller l =>
          have hne : l ≠ j := fun h => hturn (by rw [h])
          show (w.pollCaller l).callers[j]? = _
          unfold pollCaller
          split
          · exact hk
          · split
            · exact hk
            · exact hset _ hne
  | call i demand =>
      show (if _ then _ else _ : World α).callers[j]? = _
      split
      · rw [List.getElem?_append_left (List.getElem?_eq_some_iff.mp hk).1]
        exact hk
      · exact hk
  | abandon l =>
      have hne : l ≠ j := fun h => hgiven (by rw [h])
      show (w.abandonCaller l).callers[j]? = _
      unfold abandonCaller
      split
      · exact hk
      · split
        · exact hk
        · exact hset _ hne
  | drop i =>
      show (w.updateContext i _ _).callers[j]? = _
      rw [callers_updateContext]
      exact hk
  | cancelScope i => exact hk
  | handOutToken i =>
      show (w.updateContext i _ _).callers[j]? = _
      rw [callers_updateContext]
      exact hk
  | cancelToken i l =>
      show (w.updateContext i _ _).callers[j]? = _
      rw [callers_updateContext]
      exact hk
  | advance t =>
      show (if _ then _ else _ : World α).callers[j]? = _
      split <;> exact hk

/-- **The step of a run as a caller sees it.** -/
theorem caller_next {w : World α} {j : Nat} {k : Caller α} (hk : w.callers[j]? = some k)
    {c : Context} (hc : w.context? k.attempt = some c) (a : Action α) :
    ∃ k' c', (w.step a).callers[j]? = some k' ∧ (w.step a).context? k.attempt = some c' ∧
      w.CallerNext j k c a k' c' := by
  have hj := (List.getElem?_eq_some_iff.mp hk).1
  have hwaits : a ≠ .poll (.caller j) → a ≠ .abandon j → ∃ k' c',
      (w.step a).callers[j]? = some k' ∧ (w.step a).context? k.attempt = some c' ∧
        w.CallerNext j k c a k' c' := by
    intro hturn hgiven
    obtain ⟨c', _, hc', _⟩ := step_effect hc a
    exact ⟨k, c', callers_of_ne hk hturn hgiven, hc', .waits hturn hgiven c'⟩
  cases a with
  | poll p =>
      cases p with
      | caller l =>
          by_cases hl : l = j
          · subst hl
            refine ⟨_, _, ?_, ?_, .polled⟩
            · show (w.pollCaller l).callers[l]? = _
              unfold pollCaller
              rw [hk]
              dsimp only
              rw [hc]
              exact List.getElem?_set_self hj
            · show (w.pollCaller l).context? k.attempt = _
              unfold pollCaller
              rw [hk]
              dsimp only
              rw [hc]
              exact context?_setContext_self _ hc
          · exact hwaits (by simpa using hl) (by simp)
      | opening i => exact hwaits (by simp) (by simp)
      | renewal i => exact hwaits (by simp) (by simp)
      | destruction i => exact hwaits (by simp) (by simp)
  | abandon l =>
      by_cases hl : l = j
      · subst hl
        refine ⟨_, _, ?_, ?_, .abandoned⟩
        · show (w.abandonCaller l).callers[l]? = _
          unfold abandonCaller
          rw [hk]
          dsimp only
          rw [hc]
          exact List.getElem?_set_self hj
        · show (w.abandonCaller l).context? k.attempt = _
          unfold abandonCaller
          rw [hk]
          dsimp only
          rw [hc]
          exact context?_setContext_self _ hc
      · exact hwaits (by simp) (by simpa using hl)
  | begin agent parent session => exact hwaits (by simp) (by simp)
  | call i demand => exact hwaits (by simp) (by simp)
  | drop i => exact hwaits (by simp) (by simp)
  | cancelScope i => exact hwaits (by simp) (by simp)
  | handOutToken i => exact hwaits (by simp) (by simp)
  | cancelToken i l => exact hwaits (by simp) (by simp)
  | advance t => exact hwaits (by simp) (by simp)

/-- A caller is one of a context that is there. -/
theorem Reachable.caller_context {w : World α} (hw : w.Reachable) {j : Nat} {k : Caller α}
    (hk : w.callers[j]? = some k) : ∃ c, w.context? k.attempt = some c := by
  induction hw generalizing k with
  | start agents scopes now => exact absurd hk (by simp [untouched])
  | @step w a hw ih =>
      have hstays : ∀ {i : Nat}, (∃ c, w.context? i = some c) →
          ∃ c, (w.step a).context? i = some c := by
        rintro i ⟨c, hc⟩
        obtain ⟨c', _, hc', _⟩ := step_effect hc a
        exact ⟨c', hc'⟩
      cases callers_step hk with
      | same hold => exact hstays (ih hold)
      | comes _ hthere => exact hstays (Option.isSome_iff_exists.mp hthere)
      | polled hold hc =>
          rw [Caller.attempt_poll]
          exact hstays ⟨_, hc⟩
      | abandoned hold hc =>
          rw [Caller.attempt_abandon]
          exact hstays ⟨_, hc⟩

/-- Whoever was told a terminal error was told the one of the context. -/
theorem Reachable.told {w : World α} (hw : w.Reachable) {j : Nat} {k : Caller α}
    (hk : w.callers[j]? = some k) {e : SessionError} (he : k.told? = some e) :
    ∃ c, w.context? k.attempt = some c ∧ c.error = some e := by
  induction hw generalizing k e with
  | start agents scopes now => exact absurd hk (by simp [untouched])
  | @step w a hw ih =>
      have hstays : ∀ {i : Nat}, (∃ c, w.context? i = some c ∧ c.error = some e) →
          ∃ c, (w.step a).context? i = some c ∧ c.error = some e := by
        rintro i ⟨c, hc, herror⟩
        exact hw.error_step hc herror a
      cases callers_step hk with
      | same hk => exact hstays (ih hk he)
      -- whoever has just come has been told nothing
      | @comes i demand _ _ => cases demand <;> exact absurd he (by simp [Caller.told?,
          Caller.outcome?, Demand.activity])
      | polled hold hc =>
          rw [Caller.attempt_poll]
          rcases Caller.told?_poll (hw.ordered hc) he with hbefore | herror
          · exact hstays (ih hold hbefore)
          · exact hstays ⟨_, hc, herror⟩
      | abandoned hold hc =>
          rw [Caller.attempt_abandon]
          exact hstays (ih hold (Caller.told?_abandon he))

end World

/-! ## Callers that are over -/

/-- Whether the caller has returned or was given up. -/
def Caller.isOver (k : Caller α) : Bool :=
  match k.activity with
  | .returned _ => true
  | .abandoned => true
  | _ => false

namespace Caller

theorem poll_of_isOver {k : Caller α} (h : k.isOver = true) (now : Nat) (c : Context) :
    k.poll now c = (k, c, []) := by
  unfold isOver at h
  unfold poll
  cases hactivity : k.activity <;> rw [hactivity] at h <;>
    first | rfl | exact absurd h Bool.false_ne_true

theorem abandon_of_isOver {k : Caller α} (h : k.isOver = true) (c : Context) :
    k.abandon c = (k, c, []) := by
  unfold isOver at h
  unfold abandon
  cases hactivity : k.activity <;> rw [hactivity] at h <;>
    first | rfl | exact absurd h Bool.false_ne_true

/-- Who is over and was not given up has returned. -/
theorem outcome_of_isOver {k : Caller α} (h : k.isOver = true) (hkept : k.activity ≠ .abandoned) :
    ∃ o, k.outcome? = some o := by
  unfold isOver at h
  unfold outcome?
  cases hactivity : k.activity with
  | returned o => exact ⟨o, rfl⟩
  | abandoned => exact absurd hactivity hkept
  | _ => rw [hactivity] at h; exact absurd h Bool.false_ne_true

theorem kept_pollAwaitRenewal (k : Caller α) (c : Context) :
    (k.pollAwaitRenewal c).1.activity ≠ .abandoned := by
  unfold pollAwaitRenewal
  split <;> simp

theorem kept_pollAwaitDestroyed (k : Caller α) (c : Context) (closing : Bool) :
    (k.pollAwaitDestroyed c closing).1.activity ≠ .abandoned := by
  unfold pollAwaitDestroyed
  split
  · split
    · exact kept_pollAwaitRenewal k c
    · simp
  · simp

/-- No turn gives a caller up. -/
theorem kept_poll {k : Caller α} (h : k.activity ≠ .abandoned) (now : Nat) (c : Context) :
    (k.poll now c).1.activity ≠ .abandoned := by
  unfold poll
  cases hactivity : k.activity with
  | cancel => exact kept_pollAwaitDestroyed k _ false
  | close => exact kept_pollAwaitDestroyed k _ true
  | awaitDestroyed closing => exact kept_pollAwaitDestroyed k c closing
  | awaitRenewal => exact kept_pollAwaitRenewal k c
  | awaitEnd =>
      dsimp only
      split
      · simp
      · exact h
  | scope work =>
      dsimp only
      split
      · simp
      · split <;> simp
  | perform work =>
      dsimp only
      split <;> simp
  | returned o => exact h
  | abandoned => exact absurd hactivity h

end Caller

namespace World

theorem CallerNext.attempt {w : World α} {j : Nat} {k k' : Caller α} {c c' : Context}
    {a : Action α} (h : w.CallerNext j k c a k' c') : k'.attempt = k.attempt := by
  cases h with
  | waits _ _ _ => rfl
  | polled => exact k.attempt_poll w.now c
  | abandoned => exact k.attempt_abandon c

/-- Who is over stays over. -/
theorem CallerNext.pending {w : World α} {j : Nat} {k k' : Caller α} {c c' : Context}
    {a : Action α} (h : w.CallerNext j k c a k' c') (hpending : k'.isOver = false) :
    k.isOver = false := by
  by_contra hover
  rw [Bool.not_eq_false] at hover
  apply absurd hpending
  rw [Bool.not_eq_false]
  cases h with
  | waits _ _ _ => exact hover
  | polled => rw [Caller.poll_of_isOver hover]; exact hover
  | abandoned => rw [Caller.abandon_of_isOver hover]; exact hover

/-- Who is over stays as it is. -/
theorem Reachable.rests {w : World α} (hw : w.Reachable) {j : Nat} {k : Caller α}
    (hk : w.callers[j]? = some k) (hover : k.isOver = true) (a : Action α) :
    (w.step a).callers[j]? = some k := by
  obtain ⟨c, hc⟩ := hw.caller_context hk
  obtain ⟨k', _, hk', _, hnext⟩ := caller_next hk hc a
  cases hnext with
  | waits _ _ _ => exact hk'
  | polled => rwa [Caller.poll_of_isOver hover] at hk'
  | abandoned => rwa [Caller.abandon_of_isOver hover] at hk'

/-- Only those who ask become callers. -/
theorem callers_eq_nil_of_step {w : World α} (h : w.callers = []) {a : Action α}
    (ha : ∀ i demand, a ≠ .call i demand) : (w.step a).callers = [] := by
  refine List.eq_nil_iff_forall_not_mem.mpr fun k hk => ?_
  obtain ⟨j, hj⟩ := List.mem_iff_getElem?.mp hk
  have hnobody : ∀ {k : Caller α}, w.callers[j]? ≠ some k := by simp [h]
  cases callers_step hj with
  | same hold => exact hnobody hold
  | comes hcall _ => exact ha _ _ hcall
  | polled hold _ => exact hnobody hold
  | abandoned hold _ => exact hnobody hold

/-- A caller that nobody gives up is not given up. -/
theorem Reachable.kept {w : World α} (hw : w.Reachable) {j : Nat} {k : Caller α}
    (hk : w.callers[j]? = some k) (h : k.activity ≠ .abandoned) {more : List (Action α)}
    (hmore : .abandon j ∉ more) :
    ∃ k', (w.run more).callers[j]? = some k' ∧ k'.activity ≠ .abandoned := by
  induction more generalizing w k with
  | nil => exact ⟨k, hk, h⟩
  | cons a rest ih =>
      obtain ⟨hfirst, hrest⟩ := not_or.mp (List.mem_cons.not.mp hmore)
      obtain ⟨c, hc⟩ := hw.caller_context hk
      obtain ⟨k', _, hk', _, hnext⟩ := caller_next hk hc a
      refine ih (hw.step a) hk' ?_ hrest
      cases hnext with
      | waits _ _ _ => exact h
      | polled => exact Caller.kept_poll h _ _
      | abandoned => exact absurd rfl hfirst

/-- A caller that nobody gives up is over when it has returned. -/
theorem Reachable.returned {w : World α} (hw : w.Reachable) {j : Nat} {k k' : Caller α}
    (hk : w.callers[j]? = some k) (h : k.activity ≠ .abandoned) {more : List (Action α)}
    (hmore : .abandon j ∉ more) (hk' : (w.run more).callers[j]? = some k')
    (hover : k'.isOver = true) : ∃ o, k'.outcome? = some o := by
  obtain ⟨k'', hk'', hkept⟩ := hw.kept hk h hmore
  obtain rfl := Option.some.inj (hk'.symm.trans hk'')
  exact Caller.outcome_of_isOver hover hkept

end World

end Tenure.Lifecycle
