import Mathlib.Tactic.Ring
import Tenure.Proofs.Lifecycle.Overlap
import Tenure.Proofs.Lifecycle.Pace
import Tenure.Proofs.Lifecycle.Progress
import Tenure.Proofs.Lifecycle.TerminalError

/-!
# Renewals stop with the context

The renewal task looks at the end, the parent scope and the owner before each tick,
but not while a renewal is in flight. So no renewal is issued once one of them is
gone, and a renewal that was in flight by then holds the end up for at most one
period, even if its answer never comes.

* `World.Drops`, `Scopes.Covers` — the actions that drop a context, and the scopes whose
  cancellation cancels its parent;
* `World.Reachable.renewals_barred` — no more renewals are issued;
* `World.Reachable.lingers` — as long as the context is live the clock is at most one
  period on;
* `World.WindsDown` — both, from some moment on;
* `World.renewals_stop` — a context winds down from the moment at which it is dropped or
  its parent is cancelled, and its renewals do not overlap.
-/

namespace Tenure.Lifecycle

variable {α : Type}

namespace Context

/-- A live context that has lost its parent scope or its owner only lets time pass while
a renewal is in flight. -/
theorem Passing.inFlight {now t : Nat} {parentCancelled : Bool} {c : Context}
    (h : c.Passing now t parentCancelled) (hgone : c.dropped = true ∨ parentCancelled = true)
    (hrenews : c.renewal.isOver = false) : ∃ call, c.renewal.call? = some call := by
  have hquiet := h.renewalQuiet
  unfold renewalReady at hquiet
  cases hrenewal : c.renewal with
  | waiting tick expiry =>
      -- a task that waits would see at once what is gone
      rw [hrenewal] at hquiet
      rcases hgone with hdropped | hparent
      · simp [hdropped] at hquiet
      · simp [hparent] at hquiet
  | renewing tick expiry call => exact ⟨call, rfl⟩
  | tearingDown => rw [hrenewal] at hrenews; exact absurd hrenews (by simp [Renewal.isOver])
  | exited => rw [hrenewal] at hrenews; exact absurd hrenews (by simp [Renewal.isOver])

end Context

/-! ## What takes owner and parent away -/

/-- Scope `s` is the scope `p` or one of those above it. -/
inductive Scopes.Covers (scopes : Scopes) (s : Nat) : Nat → Prop
  | self : Covers scopes s s
  | above {p q : Nat} (habove : scopes.above? p = some q) (hcovers : Covers scopes s q) :
      Covers scopes s p

/-- Cancelling a scope cancels every scope below it. -/
theorem Scopes.Covers.isCancelled {scopes : Scopes} {s p : Nat} (h : scopes.Covers s p) :
    (scopes.cancel s).isCancelled p = true := by
  induction h with
  | self => exact isCancelled_of_cut (by simp [cancel])
  | @above p q habove _ ih =>
      have hsame : (scopes.cancel s).above? p = some q := habove
      exact isCancelled_of_above hsame ih

/-- Whether the caller is closing the context. It owns the context then. -/
def Caller.closes (k : Caller α) : Bool :=
  match k.activity with
  | .close => true
  | .awaitDestroyed closing => closing
  | .awaitRenewal => true
  | _ => false

namespace Caller

/-- The context goes with a caller that is given up while it closes the context. -/
theorem dropped_abandon {k : Caller α} (h : k.closes = true) (c : Context) :
    (k.abandon c).2.1.dropped = true := by
  unfold closes at h
  unfold abandon
  cases hactivity : k.activity with
  | close => rfl
  | awaitDestroyed closing =>
      rw [hactivity] at h
      obtain rfl : closing = true := h
      rfl
  | awaitRenewal => rfl
  | _ => rw [hactivity] at h; exact absurd h Bool.false_ne_true

theorem dropped_pollAwaitRenewal {k : Caller α} {c : Context} {o : Outcome α}
    (ho : (k.pollAwaitRenewal c).1.outcome? = some o) :
    (k.pollAwaitRenewal c).2.1.dropped = true := by
  unfold pollAwaitRenewal at ho ⊢
  split
  · rfl
  · rename_i hruns
    rw [if_neg hruns] at ho
    exact absurd ho (by simp [outcome?])

theorem dropped_pollAwaitDestroyed {k : Caller α} {c : Context} {o : Outcome α}
    (ho : (k.pollAwaitDestroyed c true).1.outcome? = some o) :
    (k.pollAwaitDestroyed c true).2.1.dropped = true := by
  unfold pollAwaitDestroyed at ho ⊢
  split
  · rename_i hdestroyed
    rw [if_pos hdestroyed] at ho
    exact dropped_pollAwaitRenewal ho
  · rename_i hwaits
    rw [if_neg hwaits] at ho
    exact absurd ho (by simp [outcome?])

/-- A caller that has closed the context has dropped it. -/
theorem dropped_poll {k : Caller α} (h : k.closes = true) {now : Nat} {c : Context}
    {o : Outcome α} (ho : (k.poll now c).1.outcome? = some o) :
    (k.poll now c).2.1.dropped = true := by
  unfold closes at h
  unfold poll at ho ⊢
  cases hactivity : k.activity with
  | close => rw [hactivity] at ho; exact dropped_pollAwaitDestroyed ho
  | awaitDestroyed closing =>
      rw [hactivity] at h ho
      obtain rfl : closing = true := h
      exact dropped_pollAwaitDestroyed ho
  | awaitRenewal => rw [hactivity] at ho; exact dropped_pollAwaitRenewal ho
  | _ => rw [hactivity] at h; exact absurd h Bool.false_ne_true

end Caller

namespace World

/-- The action drops the context `c` of attempt `i`: its owner gives it up, or a caller that
is closing it is given up or returns. -/
inductive Drops (w : World α) (i : Nat) (c : Context) : Action α → Prop
  | owner : Drops w i c (.drop i)
  | abandoned {j : Nat} {k : Caller α} (hk : w.callers[j]? = some k) (hi : k.attempt = i)
      (hcloses : k.closes = true) : Drops w i c (.abandon j)
  | closed {j : Nat} {k : Caller α} {o : Outcome α} (hk : w.callers[j]? = some k)
      (hi : k.attempt = i) (hcloses : k.closes = true)
      (ho : (k.poll w.now c).1.outcome? = some o) : Drops w i c (.poll (.caller j))

/-- A context that is dropped is there, and has been given up. -/
theorem Drops.dropped {w : World α} {i : Nat} {c : Context} {a : Action α}
    (h : w.Drops i c a) (hc : w.context? i = some c) :
    ∃ c', (w.step a).context? i = some c' ∧ c'.dropped = true := by
  cases h with
  | owner =>
      refine ⟨c.drop, ?_, rfl⟩
      show (w.updateContext i Context.drop [.contextDropped]).context? i = _
      unfold updateContext
      rw [hc]
      exact context?_setContext_self c.drop hc
  | @abandoned j k hk hi hcloses =>
      subst hi
      refine ⟨_, ?_, Caller.dropped_abandon hcloses c⟩
      show (w.abandonCaller j).context? k.attempt = _
      unfold abandonCaller
      rw [hk]
      dsimp only
      rw [hc]
      exact context?_setContext_self _ hc
  | @closed j k o hk hi hcloses ho =>
      subst hi
      refine ⟨_, ?_, Caller.dropped_poll hcloses ho⟩
      show (w.pollCaller j).context? k.attempt = _
      unfold pollCaller
      rw [hk]
      dsimp only
      rw [hc]
      exact context?_setContext_self _ hc

/-! ## The end of renewals -/

/-- The context of attempt `i` has lost its owner or its parent scope. -/
def Bereft (w : World α) (i : Nat) : Prop :=
  ∃ c, w.context? i = some c ∧ (c.dropped = true ∨ w.scopes.isCancelled c.parent = true)

/-- The context of attempt `i` is renewed no more: it has ended, or it is bereft. -/
def Barred (w : World α) (i : Nat) : Prop :=
  (∃ c, w.context? i = some c ∧ c.done = true) ∨ w.Bereft i

theorem Reachable.bereft_step {w : World α} (hw : w.Reachable) {i : Nat} (h : w.Bereft i)
    (a : Action α) : (w.step a).Bereft i := by
  obtain ⟨c, hc, hgone⟩ := h
  obtain ⟨c', hc', hparent, hdropped⟩ := hw.keeps_step hc
    (P := fun c' => c'.parent = c.parent ∧ (c.dropped = true → c'.dropped = true))
    (fun hmove h => ⟨hmove.frame.2.2.1.trans h.1,
      fun hd => hmove.dropped_of_dropped (h.2 hd)⟩) ⟨rfl, id⟩ a
  refine ⟨c', hc', ?_⟩
  rcases hgone with hd | hp
  · exact .inl (hdropped hd)
  · rw [hparent]
    exact .inr (step_scopes w a _ hp)

theorem Reachable.bereft_run {w : World α} (hw : w.Reachable) {i : Nat} (h : w.Bereft i)
    (more : List (Action α)) : (w.run more).Bereft i :=
  hw.run_keeps h (fun _ a hu hbereft => hu.bereft_step hbereft a) more

theorem Reachable.barred_step {w : World α} (hw : w.Reachable) {i : Nat} (h : w.Barred i)
    (a : Action α) : (w.step a).Barred i := by
  rcases h with ⟨c, hc, hdone⟩ | hbereft
  · exact .inl (hw.keeps_step hc (fun hmove => hmove.done_of_done) hdone a)
  · exact .inr (hw.bereft_step hbereft a)

/-- **No more renewals.** -/
theorem Reachable.renewals_barred {w : World α} (hw : w.Reachable) {i : Nat}
    (h : w.Barred i) (more : List (Action α)) :
    ((w.run more).log i).renewalTimes = (w.log i).renewalTimes := by
  have hkept := hw.run_keeps
    (P := fun u => u.Barred i ∧ (u.log i).renewalTimes = (w.log i).renewalTimes) ⟨h, rfl⟩ ?_ more
  · exact hkept.2
  intro u a hu ⟨hbarred, hsame⟩
  refine ⟨hu.barred_step hbarred a, ?_⟩
  rw [← hsame]
  have hthere : ∃ c, u.context? i = some c := by
    rcases hbarred with ⟨c, hc, _⟩ | ⟨c, hc, _⟩ <;> exact ⟨c, hc⟩
  obtain ⟨c, hc⟩ := hthere
  rcases hu.renewal_step hc a with ⟨htimes, _⟩ | ⟨_, hissues, _⟩
  · exact htimes
  · -- whatever bars the context goes before its tick
    have hdue := hissues.due
    rcases hbarred with ⟨c', hc', hdone⟩ | ⟨c', hc', hdropped | hparent⟩ <;>
      obtain rfl := Option.some.inj (hc.symm.trans hc')
    · exact absurd (hdone.symm.trans hdue.live) (by simp)
    · exact absurd (hdropped.symm.trans hdue.owner) (by simp)
    · exact absurd (hparent.symm.trans hdue.parent) (by simp)

/-- **The end comes within a period.** A bereft context is live at no time later than one
period after it was found to be bereft. -/
theorem Reachable.lingers {w : World α} (hw : w.Reachable) {i : Nat} (h : w.Bereft i)
    {P : Nat} (more : List (Action α)) {c : Context}
    (hc : (w.run more).context? i = some c) (httl : c.ttl.nanos = toNanos (3 * P))
    (hlive : c.error = none) : (w.run more).now ≤ w.now + P := by
  induction more using List.reverseRecOn generalizing c with
  | nil => exact Nat.le_add_right _ _
  | append_singleton more a ih =>
      have hu := hw.run more
      have hsame := hw.renewals_barred (.inr h) more
      obtain ⟨c₀, hc₀, hgone⟩ := hw.bereft_run h more
      rw [run_concat] at hc ⊢
      rcases hu.step_context hc₀ a with ⟨t, hw', hpassing⟩ |
        ⟨_, c', _, _, hnow, hc', _, _, hmoves⟩
      · rw [hw'] at hc ⊢
        obtain rfl := Option.some.inj (hc₀.symm.trans hc)
        have hbooks := Context.bookkeeping_invariant.holds hu hc₀
        obtain ⟨call, hcall⟩ := hpassing.inFlight hgone (hbooks.renews hlive)
        obtain ⟨answer, hflight⟩ := (hbooks.pass hpassing).inFlight call hcall
        have hearly := hflight.early_le httl
        -- the call in flight is the last one that was issued, which was before all this
        have hlast : call.since ∈ (w.log i).renewalTimes := by
          rw [← hsame]
          exact List.mem_of_getLast? hflight.time
        obtain ⟨x, hx, htime⟩ := List.mem_filterMap.mp hlast
        have hsince : x.1 = call.since := by
          obtain ⟨_, _, h⟩ := Option.map_eq_some_iff.mp htime
          exact h
        have hle := hw.log_le x hx
        show t ≤ w.now + P
        omega
      · obtain rfl := Option.some.inj (hc.symm.trans hc')
        have hbefore : c₀.error = none := by
          cases herror : c₀.error with
          | none => rfl
          | some e => exact absurd (hlive.symm.trans (hmoves.error_of_error herror)) (by simp)
        rw [hnow]
        refine ih hc₀ ?_ hbefore
        rw [← Context.ttl_congr hmoves.frame.1]
        exact httl

/-- The context `c` of attempt `i` is winding down. No renewal is issued any more. If its
TTL is three periods, it is live at no time later than one period from now; and since time
goes on, it has ended by then in every course of events. -/
structure WindsDown (w : World α) (i : Nat) (c : Context) : Prop where
  renewals : ∀ more, ((w.run more).log i).renewalTimes = (w.log i).renewalTimes
  ends : ∀ P, c.ttl.nanos = 3 * (P * nanosPerMilli) → ∀ more c',
    (w.run more).context? i = some c' → w.now + P < (w.run more).now → c'.error.isSome = true
  goes : Nonempty (Course w)
  soon : ∀ P, c.ttl.nanos = 3 * (P * nanosPerMilli) → ∀ course : Course w, ∃ n c',
    (course.world n).context? i = some c' ∧ (course.world n).now ≤ w.now + P ∧
      c'.error.isSome = true

/-- A context that is bereft winds down. -/
theorem Reachable.windsDown {w : World α} (hw : w.Reachable) {i : Nat} (h : w.Bereft i)
    {c c₀ : Context} (hc : w.context? i = some c) (hsession : c.session = c₀.session) :
    w.WindsDown i c₀ := by
  have hends : ∀ P, c₀.ttl.nanos = 3 * (P * nanosPerMilli) → ∀ more c',
      (w.run more).context? i = some c' → w.now + P < (w.run more).now →
        c'.error.isSome = true := by
    intro P httl more c' hc' hlate
    have hthree : c'.ttl.nanos = toNanos (3 * P) := by
      rw [Context.ttl_congr ((hw.frame_run hc hc').1.trans hsession), httl, toNanos]
      ring
    cases hlive : c'.error with
    | some e => rfl
    | none =>
        have hnow := hw.lingers h more hc' hthree hlive
        omega
  refine ⟨hw.renewals_barred (.inr h), hends, ⟨.drift hw⟩, fun P httl course => ?_⟩
  obtain ⟨n, hearly, c', hc', hended⟩ := course.exists_by (Nat.le_add_right w.now P)
    (P := fun u => ∃ c', u.context? i = some c' ∧ c'.error.isSome = true)
    (fun n hlate => by
      rw [course.world_eq_run] at hlate ⊢
      obtain ⟨c', hc', _⟩ := hw.bereft_run h (course.actions n)
      exact ⟨c', hc', hends P httl _ c' hc' hlate⟩)
    fun _ _ h => h
  exact ⟨n, c', hc', hearly, hended⟩

/-- **Ending stops renewals promptly.** At no time are two renewals of a context in
flight. Once it has ended no renewal is issued. Once it was dropped or its parent scope was
cancelled no renewal is issued either, and it has ended by one period later, whatever
becomes of a renewal that is in flight. That begins at once: with the step in which its
owner gives it up, or in which a caller that is closing it is given up or returns, and with
the step in which its parent scope or one above that is cancelled. -/
theorem renewals_stop {w : World α} (hw : w.Reachable) {i : Nat} {c : Context}
    (hc : w.context? i = some c) :
    (w.log i).renewalsInFlight.length ≤ 1 ∧
    (c.error.isSome = true →
      ∀ more, ((w.run more).log i).renewalTimes = (w.log i).renewalTimes) ∧
    (.contextDropped ∈ w.eventsOf i ∨ w.scopes.isCancelled c.parent = true →
      w.WindsDown i c) ∧
    (∀ a, w.Drops i c a →
      .contextDropped ∈ (w.step a).eventsOf i ∧ (w.step a).WindsDown i c) ∧
    (∀ s, w.scopes.Covers s c.parent →
      (w.step (.cancelScope s)).scopes.isCancelled c.parent = true ∧
        (w.step (.cancelScope s)).WindsDown i c) := by
  refine ⟨hw.renewals_apart hc, fun hended => ?_, fun hgone => ?_, fun a hdrops => ?_,
    fun s hcovers => ?_⟩
  · refine hw.renewals_barred (.inl ⟨c, hc, ?_⟩)
    rw [hw.grounded.signalled i c hc]
    exact hended
  · rw [← hw.dropped_iff hc] at hgone
    exact hw.windsDown ⟨c, hc, hgone⟩ hc rfl
  · have hw' := hw.step a
    obtain ⟨c', hc', hdropped⟩ := hdrops.dropped hc
    have hthen : (w.run [a]).context? i = some c' := hc'
    exact ⟨(hw'.dropped_iff hc').mp hdropped,
      hw'.windsDown ⟨c', hc', .inl hdropped⟩ hc' (hw.frame_run hc hthen).1⟩
  · have hw' := hw.step (.cancelScope s)
    have hcancelled : (w.step (.cancelScope s)).scopes.isCancelled c.parent = true :=
      hcovers.isCancelled
    exact ⟨hcancelled, hw'.windsDown ⟨c, hc, .inr hcancelled⟩ hc rfl⟩

/-- A renewal is in flight that is never answered. -/
def hanging : World Unit :=
  (untouched [.scripted "s-1" (fun _ => ⟨none, .ok ()⟩) ⟨none, .ok ()⟩] {} 0).run
    [.begin 0 0 { lockDelay := some (.ofMillis 20), ttl := some (.ofMillis 300) },
      .poll (.opening 0), .advance 100, .poll (.renewal 0), .advance 150]

/-- What happens once owner or parent is gone: the renewal runs into its limit before the
end is seen, and the destroy call into its own. -/
def hangingLater : List (Action Unit) :=
  [.advance 200, .poll (.renewal 0), .poll (.renewal 0), .poll (.destruction 0), .advance 220,
    .poll (.destruction 0), .poll (.renewal 0), .advance 300]

theorem renewals_stop_of_hanging :
    ∃ c, hanging.context? 0 = some c ∧ c.error = none ∧
      (hanging.log 0).renewalsInFlight.length = 1 ∧
      .contextDropped ∈ (hanging.step (.drop 0)).eventsOf 0 ∧
      ∀ a ∈ [Action.drop 0, .cancelScope 0], ∃ c',
        ((hanging.step a).run hangingLater).context? 0 = some c' ∧
        (((hanging.step a).run hangingLater).log 0).renewalTimes = [100] ∧
        c'.error.isSome = true := by
  have hc : hanging.context? 0 = some ((hanging.context? 0).get (by decide +kernel)) :=
    (Option.some_get _).symm
  have hparent : ((hanging.context? 0).get (by decide +kernel)).parent = 0 := by
    decide +kernel
  have httl : ((hanging.context? 0).get (by decide +kernel)).ttl.nanos =
      3 * (100 * nanosPerMilli) := by decide +kernel
  obtain ⟨_, _, _, hdropped, horphaned⟩ :=
    renewals_stop (w := hanging) (reachable_run _ _ _ _) hc
  obtain ⟨hevent, hdrops⟩ := hdropped (.drop 0) .owner
  obtain ⟨_, hcancels⟩ := horphaned 0 (hparent.symm ▸ .self)
  refine ⟨_, hc, by decide +kernel, by decide +kernel, hevent, fun a ha => ?_⟩
  obtain ⟨hdown, hissued, hthere, hlate⟩ :
      (hanging.step a).WindsDown 0 ((hanging.context? 0).get (by decide +kernel)) ∧
        ((hanging.step a).log 0).renewalTimes = [100] ∧
        (((hanging.step a).run hangingLater).context? 0).isSome = true ∧
        (hanging.step a).now + 100 < ((hanging.step a).run hangingLater).now := by
    rcases List.mem_pair.mp ha with rfl | rfl
    · exact ⟨hdrops, by decide +kernel⟩
    · exact ⟨hcancels, by decide +kernel⟩
  obtain ⟨c', hc'⟩ := Option.isSome_iff_exists.mp hthere
  refine ⟨c', hc', ?_, hdown.ends 100 httl hangingLater c' hc' hlate⟩
  rw [hdown.renewals hangingLater, hissued]

end World

end Tenure.Lifecycle
