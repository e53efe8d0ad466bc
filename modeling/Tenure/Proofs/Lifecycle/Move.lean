import Tenure.Proofs.Lifecycle.Effect

/-!
# The moves of a context

A turn of a task does up to three things at once: it issues a call, notes that
the call is settled and ends the context. `Context.Move` lists these things one
by one, each with its guard and its events, and `Context.Moves` chains them. An
invariant of contexts is shown for each move once, whichever turns it occurs in.

* `Context.ended` — what the end changes, whoever brings it about;
* `Pending.Failed`, `Pending.DestroyOver` — how a call can be settled;
* `World.Effect.moves` — every effect of an action is a chain of moves.
-/

namespace Tenure.Lifecycle

variable {α : Type}

namespace Pending

/-- A renewal has failed at the time `now`: for what reason, and how the log has it. -/
inductive Failed (call : Pending Unit) (now : Nat) (period : Duration) :
    ClientError → Event → Prop
  | refused {cause : ClientError} (hready : call.isReady now = true)
      (houtcome : call.outcome = .error cause) :
      Failed call now period cause (.answered call.number false)
  | late (hready : call.isReady now = false) (hdue : isDue call.limit now = true) :
      Failed call now period (.timeout period) (.abandoned call.number)

/-- A destroy call is over at the time `now`: how the log has it. -/
inductive DestroyOver (call : Pending Unit) (now : Nat) (limit : Duration) :
    List Event → Prop
  | done (hready : call.isReady now = true) (houtcome : call.outcome = .ok ()) :
      DestroyOver call now limit [.answered call.number true, .destroyed]
  | refused {cause : ClientError} (hready : call.isReady now = true)
      (houtcome : call.outcome = .error cause) :
      DestroyOver call now limit [.answered call.number false, .destroyFailed cause]
  | late (hready : call.isReady now = false) (hdue : isDue call.limit now = true) :
      DestroyOver call now limit [.abandoned call.number, .destroyTimedOut limit]

theorem ready_of_answered {β : Type} {call : Pending β} {now : Nat}
    {outcome : Except ClientError β} (h : call.standing now = .answered outcome) :
    call.isReady now = true ∧ call.outcome = outcome := by
  unfold standing at h
  split at h
  · rename_i hready
    cases h
    exact ⟨hready, rfl⟩
  · split at h <;> cases h

theorem due_of_timedOut {β : Type} {call : Pending β} {now : Nat}
    (h : call.standing now = .timedOut) :
    call.isReady now = false ∧ isDue call.limit now = true := by
  unfold standing at h
  split at h
  · cases h
  · rename_i hready
    split at h
    · rename_i hdue
      exact ⟨Bool.eq_false_iff.mpr hready, hdue⟩
    · cases h

end Pending

namespace Context

/-! ## The end -/

/-- The context as its end leaves it. -/
def ended (c : Context) (e : SessionError) : Context :=
  { c with
    error := some e
    done := true
    tokens := c.tokens.map fun _ => true
    destruction := .queued }

theorem conclude_of_live {c : Context} (e : SessionError) (h : c.error = none) :
    c.conclude e = (c.ended e, [.ending e]) := by
  unfold conclude
  rw [h]
  rfl

theorem conclude_of_over {c : Context} (e : SessionError) (h : c.error ≠ none) :
    c.conclude e = (c, []) := by
  unfold conclude
  cases he : c.error with
  | none => exact absurd he h
  | some _ => rfl

theorem tearDown_of_live {c : Context} (e : SessionError) (h : c.error = none) :
    c.tearDown e = ({ c.ended e with renewal := .tearingDown }, [.ending e]) := by
  unfold tearDown
  rw [conclude_of_live e h]

/-- The end is signalled as soon as there is an error, and not before. -/
def Signalled (c : Context) : Prop := c.done = c.error.isSome

theorem Signalled.done_of_live {c : Context} (hs : c.Signalled) (h : c.error = none) :
    c.done = false := by
  unfold Signalled at hs
  rw [hs, h]
  rfl

theorem Signalled.live_of_not_done {c : Context} (hs : c.Signalled) (h : c.done = false) :
    c.error = none := by
  unfold Signalled at hs
  rw [h] at hs
  simpa using hs.symm

/-! ## Moves -/

/-- Who acts on a context: one of its tasks, a caller, which may ask for the end in this
turn, or somebody who holds it. -/
inductive Actor
  | renewal
  | destruction
  | caller (asks : Prop)
  | holder

/-- Whether the actor is one of the tasks of the context. -/
def Actor.isTask : Actor → Bool
  | .renewal => true
  | .destruction => true
  | _ => false

/-- One thing that an actor can do to a context, and the events that it leaves. -/
inductive Move (s : Surroundings) : Actor → Context → List Event → Context → Prop
  /-- The renewal task sees the end while it waits. -/
  | leave {c : Context} {tick expiry : Nat} (hrenewal : c.renewal = .waiting tick expiry)
      (hdone : c.done = true) : Move s .renewal c [] { c with renewal := .exited }
  /-- The renewal task sees that the parent scope is cancelled. -/
  | orphaned {c : Context} {tick expiry : Nat} (hrenewal : c.renewal = .waiting tick expiry)
      (hlive : c.error = none) (hparent : s.parentCancelled = true) :
      Move s .renewal c [.ending .parentCancelled]
        { c.ended .parentCancelled with renewal := .tearingDown }
  /-- The renewal task sees that the owner gave the context up. -/
  | givenUp {c : Context} {tick expiry : Nat} (hrenewal : c.renewal = .waiting tick expiry)
      (hlive : c.error = none) (hdropped : c.dropped = true) :
      Move s .renewal c [.ending .cancelled]
        { c.ended .cancelled with renewal := .tearingDown }
  | issueRenewal {c : Context} {tick expiry : Nat}
      (hrenewal : c.renewal = .waiting tick expiry) (hlive : c.error = none)
      (hparent : s.parentCancelled = false) (hdropped : c.dropped = false)
      (hdue : isDue tick s.now = true) :
      Move s .renewal c [.issued s.number (.renew c.session.id)]
        { c with renewal := .renewing (c.nextTick tick s.now) expiry
                  (.issue s.number s.now s.renewAnswer c.period) }
  /-- The end comes while a renewal is in flight. -/
  | interrupted {c : Context} {tick expiry : Nat} {call : Pending Unit}
      (hrenewal : c.renewal = .renewing tick expiry call) (hdone : c.done = true) :
      Move s .renewal c [.abandoned call.number] { c with renewal := .exited }
  | renewed {c : Context} {tick expiry : Nat} {call : Pending Unit}
      (hrenewal : c.renewal = .renewing tick expiry call) (hlive : c.error = none)
      (hready : call.isReady s.now = true) (houtcome : call.outcome = .ok ()) :
      Move s .renewal c [.answered call.number true, .renewed]
        { c with renewal := .waiting tick (toNanos call.since + c.ttl.nanos) }
  | missed {c : Context} {tick expiry : Nat} {call : Pending Unit} {cause : ClientError}
      {how : Event} (hrenewal : c.renewal = .renewing tick expiry call)
      (hlive : c.error = none) (hfailed : call.Failed s.now c.period cause how)
      (htime : toNanos call.since < expiry) :
      Move s .renewal c [how, .renewalMissed cause (expiry - toNanos call.since)]
        { c with renewal := .waiting tick expiry }
  | expired {c : Context} {tick expiry : Nat} {call : Pending Unit} {cause : ClientError}
      {how : Event} (hrenewal : c.renewal = .renewing tick expiry call)
      (hlive : c.error = none) (hfailed : call.Failed s.now c.period cause how)
      (htime : expiry ≤ toNanos call.since) :
      Move s .renewal c [how, .expired cause, .ending (.renewFailed c.session.id cause)]
        { c.ended (.renewFailed c.session.id cause) with renewal := .tearingDown }
  /-- The renewal task has waited for the destroy attempt that it started. -/
  | tornDown {c : Context} (hrenewal : c.renewal = .tearingDown)
      (hdestroyed : c.destroyed = true) : Move s .renewal c [] { c with renewal := .exited }
  | issueDestroy {c : Context} (hqueued : c.destruction = .queued) :
      Move s .destruction c [.issued s.number (.destroy c.session.id)]
        { c with destruction := .calling
                  (.issue s.number s.now s.destroyAnswer c.lockDelay) }
  | destroyOver {c : Context} {call : Pending Unit} {events : List Event}
      (hcalling : c.destruction = .calling call)
      (hover : call.DestroyOver s.now c.lockDelay events) :
      Move s .destruction c events c.destructionOver
  /-- A caller ends the context. -/
  | cancel {asks : Prop} {c : Context} (hasks : asks) (hlive : c.error = none) :
      Move s (.caller asks) c [.ending .cancelled] (c.ended .cancelled)
  | drop {actor : Actor} (hactor : actor.isTask = false) (c : Context) :
      Move s actor c [.contextDropped] c.drop
  /-- Work takes steps, under the context or beside it. -/
  | work {asks : Prop} (c : Context) {events : List Event}
      (hwork : ∀ e ∈ events, e.isWork = true) : Move s (.caller asks) c events c
  | handOutToken (c : Context) : Move s .holder c [] c.handOutToken
  | cancelToken (c : Context) (k : Nat) : Move s .holder c [] (c.cancelToken k)

/-- Several moves at one moment. -/
inductive Moves (s : Surroundings) (actor : Actor) : Context → List Event → Context → Prop
  | none (c : Context) : Moves s actor c [] c
  | cons {c c' c'' : Context} {events more : List Event} (first : Move s actor c events c')
      (rest : Moves s actor c' more c'') : Moves s actor c (events ++ more) c''

theorem Move.moves {s : Surroundings} {actor : Actor} {c c' : Context} {events : List Event}
    (h : Move s actor c events c') : Moves s actor c events c' := by
  have hone := Moves.cons h (.none c')
  rwa [List.append_nil] at hone

/-- What each move keeps, a chain of them keeps. -/
theorem Moves.keeps {s : Surroundings} {actor : Actor} {c c' : Context} {events : List Event}
    (h : Moves s actor c events c') {P : Context → Prop}
    (hmove : ∀ {c events c'}, Move s actor c events c' → P c → P c') (hc : P c) : P c' := by
  induction h with
  | none c => exact hc
  | cons first _ ih => exact ih (hmove first hc)

/-- What each move leaves only events of, a chain of them does. -/
theorem Moves.forall_events {s : Surroundings} {actor : Actor} {c c' : Context}
    {events : List Event} (h : Moves s actor c events c') {P : Event → Prop}
    (hmove : ∀ {c events c'}, Move s actor c events c' → ∀ e ∈ events, P e) :
    ∀ e ∈ events, P e := by
  induction h with
  | none c => exact fun e he => absurd he List.not_mem_nil
  | cons first _ ih =>
      intro e he
      rcases List.mem_append.mp he with hfirst | hrest
      · exact hmove first e hfirst
      · exact ih e hrest

/-- What a context is about never changes. -/
theorem Move.frame {s : Surroundings} {actor : Actor} {c c' : Context} {events : List Event}
    (h : Move s actor c events c') :
    c'.session = c.session ∧ c'.agent = c.agent ∧ c'.parent = c.parent ∧
      c'.started = c.started := by
  cases h <;> exact ⟨rfl, rfl, rfl, rfl⟩

theorem Moves.frame {s : Surroundings} {actor : Actor} {c c' : Context} {events : List Event}
    (h : Moves s actor c events c') :
    c'.session = c.session ∧ c'.agent = c.agent ∧ c'.parent = c.parent ∧
      c'.started = c.started := by
  induction h with
  | none c => exact ⟨rfl, rfl, rfl, rfl⟩
  | cons first _ ih =>
      obtain ⟨h₁, h₂, h₃, h₄⟩ := first.frame
      exact ⟨ih.1.trans h₁, ih.2.1.trans h₂, ih.2.2.1.trans h₃, ih.2.2.2.trans h₄⟩

/-! ## Turns of the tasks -/

/-- Writing down where the renewal task stands already changes nothing. -/
theorem with_renewal_self {c : Context} {r : Renewal} (h : c.renewal = r) :
    { c with renewal := r } = c := by
  subst h
  rfl

theorem with_destruction_self {c : Context} {d : Destruction} (h : c.destruction = d) :
    { c with destruction := d } = c := by
  subst h
  rfl

theorem ttl_with_renewal (c : Context) (r : Renewal) :
    ({ c with renewal := r } : Context).ttl = c.ttl := rfl

/-- A failed renewal is missed or the last one. -/
theorem renewalFailed_move {s : Surroundings} {c : Context} (tick expiry : Nat)
    {call : Pending Unit} {cause : ClientError} {how : Event}
    (hlive : c.error = none) (hfailed : call.Failed s.now c.period cause how) :
    Move s .renewal { c with renewal := .renewing tick expiry call }
      (how :: (c.renewalFailed tick expiry call cause).2)
      (c.renewalFailed tick expiry call cause).1 := by
  unfold renewalFailed
  split
  · rename_i htime
    exact .missed (c := { c with renewal := .renewing tick expiry call }) rfl hlive hfailed htime
  · rename_i htime
    rw [tearDown_of_live _ hlive]
    exact .expired (c := { c with renewal := .renewing tick expiry call }) rfl hlive hfailed
      (Nat.le_of_not_lt htime)

/-- Noting a renewal in flight is at most one move. It overwrites where the renewal task
stood, so the renewal need not have been written down before. -/
theorem pollRenewing_moves (s : Surroundings) {c : Context} (hs : c.Signalled)
    (tick expiry : Nat) (call : Pending Unit) :
    Moves s .renewal { c with renewal := .renewing tick expiry call }
      (c.pollRenewing s tick expiry call).2 (c.pollRenewing s tick expiry call).1 := by
  unfold pollRenewing
  by_cases hdone : c.done = true
  · rw [if_pos hdone]
    exact (Move.interrupted (c := { c with renewal := .renewing tick expiry call })
      rfl hdone).moves
  rw [if_neg hdone]
  have hlive := hs.live_of_not_done (Bool.eq_false_iff.mpr hdone)
  split
  · exact .none _
  · rename_i hstanding
    obtain ⟨hready, houtcome⟩ := Pending.ready_of_answered hstanding
    have hmove := Move.renewed (s := s)
      (c := { c with renewal := .renewing tick expiry call }) rfl hlive hready houtcome
    rw [ttl_with_renewal] at hmove
    exact hmove.moves
  · rename_i cause hstanding
    obtain ⟨hready, houtcome⟩ := Pending.ready_of_answered hstanding
    have hmove := renewalFailed_move (s := s) tick expiry hlive
      (.refused hready houtcome)
    split
    rename_i hresult
    rw [hresult] at hmove
    exact hmove.moves
  · rename_i hstanding
    obtain ⟨hready, hdue⟩ := Pending.due_of_timedOut hstanding
    have hmove := renewalFailed_move (s := s) tick expiry hlive (.late hready hdue)
    split
    rename_i hresult
    rw [hresult] at hmove
    exact hmove.moves

/-- A turn of the renewal task that waits: the end, the parent scope and the owner come
before the tick. -/
theorem pollWaiting_moves {s : Surroundings} {c : Context} {tick expiry : Nat}
    (hs : c.Signalled) (hrenewal : c.renewal = .waiting tick expiry) :
    Moves s .renewal c (c.pollRenewal s).2 (c.pollRenewal s).1 := by
  unfold pollRenewal
  rw [hrenewal]
  dsimp only
  by_cases hdone : c.done = true
  · rw [if_pos hdone]
    exact (Move.leave hrenewal hdone).moves
  rw [if_neg hdone]
  -- from here on the guards are taken in the order in which the task looks at them
  have hlive := hs.live_of_not_done (Bool.eq_false_iff.mpr hdone)
  by_cases hparent : s.parentCancelled = true
  · rw [if_pos hparent, tearDown_of_live _ hlive]
    exact (Move.orphaned hrenewal hlive hparent).moves
  rw [if_neg hparent]
  by_cases hdropped : c.dropped = true
  · rw [if_pos hdropped, tearDown_of_live _ hlive]
    exact (Move.givenUp hrenewal hlive hdropped).moves
  rw [if_neg hdropped]
  by_cases hdue : isDue tick s.now = true
  · rw [if_pos hdue]
    -- the renewal that is issued is noted in the same turn, which may settle it at once
    have hnoted := pollRenewing_moves s hs (c.nextTick tick s.now) expiry
      (.issue s.number s.now s.renewAnswer c.period)
    dsimp only
    rw [hnoted.frame.1]
    exact Moves.cons (.issueRenewal hrenewal hlive (Bool.eq_false_iff.mpr hparent)
      (Bool.eq_false_iff.mpr hdropped) hdue) hnoted
  · rw [if_neg hdue]
    exact .none c

theorem pollRenewal_of_renewing (s : Surroundings) {c : Context} {tick expiry : Nat}
    {call : Pending Unit} (h : c.renewal = .renewing tick expiry call) :
    c.pollRenewal s = c.pollRenewing s tick expiry call := by
  unfold pollRenewal
  rw [h]

/-- A turn of the renewal task is at most two moves: issuing a renewal and noting it. -/
theorem pollRenewal_moves {s : Surroundings} {c : Context} (hs : c.Signalled) :
    Moves s .renewal c (c.pollRenewal s).2 (c.pollRenewal s).1 := by
  cases hrenewal : c.renewal with
  | waiting tick expiry => exact pollWaiting_moves hs hrenewal
  | renewing tick expiry call =>
      rw [pollRenewal_of_renewing s hrenewal]
      have hnoted := pollRenewing_moves s hs tick expiry call
      rwa [with_renewal_self hrenewal] at hnoted
  | tearingDown =>
      unfold pollRenewal
      rw [hrenewal]
      dsimp only
      split
      · rename_i hdestroyed
        exact (Move.tornDown hrenewal hdestroyed).moves
      · exact .none c
  | exited =>
      unfold pollRenewal
      rw [hrenewal]
      exact .none c

/-- Noting a destroy call in flight is at most one move. -/
theorem pollDestroying_moves (s : Surroundings) (c : Context) (call : Pending Unit) :
    Moves s .destruction { c with destruction := .calling call } (c.pollDestroying s call).2
      (c.pollDestroying s call).1 := by
  have hover : ∀ {events : List Event}, call.DestroyOver s.now c.lockDelay events →
      Moves s .destruction { c with destruction := .calling call } events c.destructionOver :=
    fun h => (Move.destroyOver (c := { c with destruction := .calling call }) rfl h).moves
  unfold pollDestroying
  split
  · exact .none _
  · rename_i hstanding
    obtain ⟨hready, houtcome⟩ := Pending.ready_of_answered hstanding
    exact hover (.done hready houtcome)
  · rename_i cause hstanding
    obtain ⟨hready, houtcome⟩ := Pending.ready_of_answered hstanding
    exact hover (.refused hready houtcome)
  · rename_i hstanding
    obtain ⟨hready, hdue⟩ := Pending.due_of_timedOut hstanding
    exact hover (.late hready hdue)

/-- A turn of the destruction task is at most two moves. -/
theorem pollDestruction_moves (s : Surroundings) (c : Context) :
    Moves s .destruction c (c.pollDestruction s).2 (c.pollDestruction s).1 := by
  unfold pollDestruction
  cases hd : c.destruction with
  | idle => exact .none c
  | queued =>
      have hnoted := pollDestroying_moves s c
        (.issue s.number s.now s.destroyAnswer c.lockDelay)
      dsimp only
      rw [hnoted.frame.1]
      exact Moves.cons (.issueDestroy hd) hnoted
  | calling call =>
      have hnoted := pollDestroying_moves s c call
      rwa [with_destruction_self hd] at hnoted
  | finished => exact .none c

end Context

/-! ## Turns of callers -/

namespace Caller

open Context

/-- Whether the next turn of the caller asks for the end. -/
def asks (k : Caller α) : Prop := k.activity = .cancel ∨ k.activity = .close

theorem pollAwaitRenewal_moves (s : Surroundings) (asks : Prop) (k : Caller α) (c : Context) :
    Moves s (.caller asks) c (k.pollAwaitRenewal c).2.2 (k.pollAwaitRenewal c).2.1 := by
  unfold pollAwaitRenewal
  split
  · exact (Move.drop rfl c).moves
  · exact .none c

theorem pollAwaitDestroyed_moves (s : Surroundings) (asks : Prop) (k : Caller α)
    (c : Context) (closing : Bool) :
    Moves s (.caller asks) c (k.pollAwaitDestroyed c closing).2.2
      (k.pollAwaitDestroyed c closing).2.1 := by
  unfold pollAwaitDestroyed
  split
  · split
    · exact pollAwaitRenewal_moves s asks k c
    · exact .none c
  · exact .none c

theorem pollCancel_moves (s : Surroundings) {asks : Prop} (hasks : asks) (k : Caller α)
    (c : Context) (closing : Bool) :
    Moves s (.caller asks) c (k.pollCancel c closing).2.2 (k.pollCancel c closing).2.1 := by
  unfold pollCancel
  by_cases hlive : c.error = none
  · rw [conclude_of_live _ hlive]
    exact Moves.cons (.cancel hasks hlive) (pollAwaitDestroyed_moves s asks k _ closing)
  · rw [conclude_of_over _ hlive]
    exact pollAwaitDestroyed_moves s asks k c closing

/-- Steps of work leave events of work. -/
theorem isWork_map {f : WorkStep → Event} (steps : List WorkStep)
    (hf : ∀ step, (f step).isWork = true) : ∀ e ∈ steps.map f, e.isWork = true := by
  intro e he
  obtain ⟨step, _, rfl⟩ := List.mem_map.mp he
  exact hf step

/-- A turn of a caller is at most two moves: ending the context and leaving it. -/
theorem poll_moves (s : Surroundings) {asks : Prop} (k : Caller α) (now : Nat)
    (c : Context) (hasks : k.asks → asks) :
    Moves s (.caller asks) c (k.poll now c).2.2 (k.poll now c).2.1 := by
  unfold poll
  cases hactivity : k.activity with
  | cancel => exact pollCancel_moves s (hasks (.inl hactivity)) k c false
  | close => exact pollCancel_moves s (hasks (.inr hactivity)) k c true
  | awaitDestroyed closing => exact pollAwaitDestroyed_moves s asks k c closing
  | awaitRenewal => exact pollAwaitRenewal_moves s asks k c
  | awaitEnd =>
      dsimp only
      split <;> exact .none c
  | scope work =>
      dsimp only
      split
      · exact .none c
      · rcases work.run now with ⟨v | rest, steps⟩ <;>
          exact (Move.work c (isWork_map steps fun _ => rfl)).moves
  | perform work =>
      dsimp only
      rcases work.run now with ⟨v | rest, steps⟩ <;>
        exact (Move.work c (isWork_map steps fun _ => rfl)).moves
  | returned _ => exact .none c
  | abandoned => exact .none c

/-- Giving a caller up is at most one move. -/
theorem abandon_moves (s : Surroundings) (k : Caller α) (c : Context) :
    Moves s .holder c (k.abandon c).2.2 (k.abandon c).2.1 := by
  unfold abandon
  cases k.activity with
  | awaitDestroyed closing =>
      cases closing with
      | true => exact (Move.drop rfl c).moves
      | false => exact .none c
  | close => exact (Move.drop rfl c).moves
  | awaitRenewal => exact (Move.drop rfl c).moves
  | cancel => exact .none c
  | awaitEnd => exact .none c
  | scope _ => exact .none c
  | perform _ => exact .none c
  | returned _ => exact .none c
  | abandoned => exact .none c

end Caller

/-! ## Effects are moves -/

namespace World

open Context

/-- The action is the first turn of a caller that cancels or closes the context. -/
def Asks (w : World α) (i : Nat) (a : Action α) : Prop :=
  ∃ j k, a = .poll (.caller j) ∧ w.callers[j]? = some k ∧ k.attempt = i ∧ k.asks

/-- Who acts on the context of attempt `i` in an action. -/
def actor (w : World α) (i : Nat) (a : Action α) : Actor :=
  match a with
  | .poll (.renewal _) => .renewal
  | .poll (.destruction _) => .destruction
  | .poll (.caller _) => .caller (w.Asks i a)
  | _ => .holder

/-- **Every effect is a chain of moves.** -/
theorem Effect.moves {w : World α} {i : Nat} {c c' : Context} {a : Action α}
    {events : List Event} {agent : Agent} (hagent : w.agents[c.agent]? = some agent)
    (hs : c.Signalled) (h : w.Effect i c a c' events) :
    Moves (w.surroundings agent c) (w.actor i a) c events c' := by
  cases h with
  | renewal h =>
      obtain rfl := Option.some.inj (hagent.symm.trans h)
      exact pollRenewal_moves hs
  | destruction h =>
      obtain rfl := Option.some.inj (hagent.symm.trans h)
      exact pollDestruction_moves _ c
  | caller hk hi => exact Caller.poll_moves _ _ w.now c fun hasks => ⟨_, _, rfl, hk, hi, hasks⟩
  | abandon hk hi => exact Caller.abandon_moves _ _ c
  | drop => exact (Move.drop rfl c).moves
  | handOutToken => exact (Move.handOutToken c).moves
  | cancelToken k => exact (Move.cancelToken c k).moves
  | none => exact .none c

end World

end Tenure.Lifecycle
