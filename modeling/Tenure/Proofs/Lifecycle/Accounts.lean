import Tenure.Proofs.Lifecycle.Settlements
import Tenure.Proofs.Lifecycle.TerminalError
import Tenure.Proofs.Lifecycle.Verdict

/-!
# The metrics account for every context

What an attempt has done to the counters can be read off its context and its log: it has
created a session if it has a context, it has ended one if there is a terminal error, and
what became of its renewals and its destroy attempt is in the log. The counters of a world
are the sum of this over all attempts.

* `Metrics.teardowns` — the counter of ends, by label;
* `World.Reachable.total` — a counter that agrees with every attempt agrees with all;
* `World.metrics_account` — all of it, for every run.
-/

namespace Tenure.Lifecycle

variable {α : Type}

/-! ## Ends by label -/

/-- How many contexts have ended for the reason with this label. -/
def Metrics.teardowns (m : Metrics) (label : String) : Nat :=
  if label = SessionError.cancelled.reason then m.teardownsCancelled
  else if label = SessionError.parentCancelled.reason then m.teardownsParentCancelled
  else if label = "renew_failed" then m.teardownsRenewFailed
  else 0

theorem Metrics.teardowns_empty (label : String) : ({} : Metrics).teardowns label = 0 := by
  unfold teardowns
  split
  · rfl
  · split
    · rfl
    · split <;> rfl

theorem Metrics.teardowns_add (m n : Metrics) (label : String) :
    (m + n).teardowns label = m.teardowns label + n.teardowns label := by
  unfold teardowns
  split
  · rfl
  · split
    · rfl
    · split <;> rfl

/-- Whether a context can end with the error; the others come from attempts. -/
def endsContext : SessionError → Bool
  | .cancelled => true
  | .parentCancelled => true
  | .renewFailed .. => true
  | _ => false

/-- An end counts under its own label. -/
theorem Metrics.teardowns_ending (m : Metrics) {e : SessionError} (h : endsContext e = true)
    (label : String) :
    (m.record (.ending e)).teardowns label =
      m.teardowns label + [e].countP (·.reason == label) := by
  rw [List.countP_singleton]
  cases e with
  | cancelled =>
      unfold teardowns record countEnding
      by_cases hlabel : label = SessionError.cancelled.reason
      · simp [hlabel]
      · simp [hlabel, Ne.symm hlabel]
  | parentCancelled =>
      unfold teardowns record countEnding
      by_cases hlabel : label = SessionError.parentCancelled.reason
      · simp [hlabel, SessionError.reason]
      · simp [hlabel, Ne.symm hlabel]
  | renewFailed id cause =>
      unfold teardowns record countEnding
      by_cases hlabel : label = "renew_failed"
      · simp [hlabel, SessionError.reason]
      · simp [hlabel, Ne.symm hlabel, SessionError.reason]
  | _ => exact absurd h Bool.false_ne_true

/-- The ends of a log are counted under their labels. -/
theorem Log.teardowns_eq {log : Log} (h : ∀ e ∈ log.endings, endsContext e = true)
    (label : String) :
    log.metrics.teardowns label = log.endings.countP (·.reason == label) := by
  induction log using List.reverseRecOn with
  | nil => exact Metrics.teardowns_empty label
  | append_singleton log x ih =>
      obtain ⟨t, e⟩ := x
      rw [endings_append] at h ⊢
      have hbefore := ih fun e he => h e (List.mem_append_left _ he)
      rw [List.countP_append, ← hbefore, metrics_append]
      show ((Log.metrics log).record e).teardowns label = _
      cases e with
      | ending reason =>
          have hterminal := h reason (List.mem_append_right _ (List.mem_singleton_self _))
          exact Metrics.teardowns_ending _ hterminal label
      | _ => rfl

namespace Context

theorem Reason.endsContext {s : Surroundings} {c : Context} {actor : Actor} {e : SessionError}
    (h : c.Reason s actor e) : endsContext e = true := by
  cases h <;> rfl

/-- A context ends with a terminal error. -/
theorem terminal_invariant : Invariant fun _ c _ _ => ∀ e, c.error = some e → endsContext e = true where
  start _ _ _ _ _ _ _ _ _ := fun _ herror => absurd herror (by simp [Context.start])
  move s actor c c' events _ _ h hmove := by
    intro e he
    cases hlive : c.error with
    | none => exact (hmove.reason hlive he).endsContext
    | some reason =>
        have hstays := hmove.error_of_error hlive
        obtain rfl := Option.some.inj (hstays.symm.trans he)
        exact h reason hlive
  pass _ _ _ _ _ _ h _ := h

/-- A renewal that ends a context is counted with the end. -/
theorem expired_invariant : Invariant fun _ _ log _ =>
    log.metrics.renewalsExpired = log.metrics.teardownsRenewFailed where
  start _ _ _ _ _ _ _ _ hopening := by
    obtain ⟨_, _, _, hmetrics⟩ := Log.metrics_of_isOpening hopening
    rw [hmetrics]
  move s actor c c' events log _ h hmove := by
    have hmore : (Log.metrics (events.map (s.now, ·))).renewalsExpired =
        (Log.metrics (events.map (s.now, ·))).teardownsRenewFailed := by
      cases hmove with
      | missed _ _ hfailed _ => cases hfailed <;> rfl
      | expired _ _ hfailed _ => cases hfailed <;> rfl
      | destroyOver _ hover => cases hover <;> rfl
      | work _ hwork => rw [Log.metrics_of_isWork hwork]
      | _ => rfl
    rw [Log.metrics_add]
    exact congrArg₂ (· + ·) h hmore
  pass _ _ _ _ _ _ h _ := h

end Context

/-! ## One attempt -/

namespace Attempt

theorem createsOk_pollCreating (a : Attempt) (parentCancelled : Bool) (now : Nat)
    (session : Session) (call : Pending String) :
    (Log.metrics ((a.pollCreating parentCancelled now session call).2.map (now, ·))).createsOk =
      (a.pollCreating parentCancelled now session call).1.context?.toList.length := by
  unfold pollCreating
  split
  · rfl
  · split <;> rfl

/-- A turn counts a session as created if it leads to a context. -/
theorem createsOk_poll (a : Attempt) (h : a.context? = none) (parentCancelled : Bool)
    (now number : Nat) (createAnswer : SessionConfig → Answer String) :
    (Log.metrics ((a.poll parentCancelled now number createAnswer).2.map (now, ·))).createsOk =
      (a.poll parentCancelled now number createAnswer).1.context?.toList.length := by
  unfold poll
  split
  · split
    · rfl
    · split
      · split <;> rfl
      · split
        · rfl
        · -- issuing the call counts for nothing
          refine Eq.trans ?_ (a.createsOk_pollCreating false now _ _)
          exact (congrArg Metrics.createsOk (Log.metrics_add [(now, _)] _)).trans (Nat.zero_add _)
  · exact a.createsOk_pollCreating ..
  · rw [h]
    rfl

end Attempt

namespace World

variable {w : World α}

/-- An attempt that has not been made has left nothing, and its making leaves nothing. -/
theorem step_absent {i : Nat} (h : w.attempts[i]? = none) (a : Action α) :
    (w.step a).log i = w.log i ∧ (w.step a).context? i = none := by
  have hnone : w.context? i = none := by
    unfold context?
    rw [h]
    rfl
  refine ⟨?_, ?_⟩
  · obtain ⟨j, events, hjournal, hj⟩ := step_journal w a
    have hlog : (w.step a).log i = (w.enter j events).log i := log_congr hjournal i
    rw [hlog, log_enter]
    split
    · rename_i hji
      have hevents : events = [] := by
        by_contra hne
        have hlt := hj hne
        rw [List.getElem?_eq_none_iff] at h
        omega
      rw [hevents]
      exact List.append_nil _
    · exact List.append_nil _
  · obtain ⟨_, _, _, hstays | ⟨b, _, _, hb, _⟩⟩ := step_opens hnone a
    · exact hstays
    · exact absurd (h.symm.trans hb) (by simp)

/-- A session was created for an attempt if the attempt has a context. -/
theorem Reachable.createsOk_eq (hw : w.Reachable) (i : Nat) :
    (w.log i).metrics.createsOk = (w.context? i).toList.length := by
  induction hw with
  | start agents scopes now => rfl
  | @step w a hw ih =>
      cases hc : w.context? i with
      | some c =>
          obtain ⟨_, agent, hagent⟩ := hw.grounded.context_agent hc
          obtain ⟨c', events, hc', hlog, heffect⟩ := step_effect hc a
          have hmoves := heffect.moves hagent (hw.grounded.signalled i c hc)
          have hbeside := Log.creations_beside (w.log i)
            (List.forall_mem_map (f := (w.now, ·)).mpr hmoves.not_beginning)
          rw [hlog, hc']
          refine (congrArg Prod.fst hbeside).trans (ih.trans ?_)
          rw [hc]
          rfl
      | none =>
          cases hb : w.attempts[i]? with
          | none =>
              obtain ⟨hlog, hcontext⟩ := step_absent hb a
              rw [hlog, hcontext, ih, hc]
          | some b =>
              have hnone : b.context? = none := by
                unfold context? at hc
                rwa [hb] at hc
              by_cases ha : a = .poll (.opening i)
              · subst ha
                obtain ⟨agent, hagent⟩ : ∃ agent, w.agents[b.agent]? = some agent :=
                  ⟨_, List.getElem?_eq_getElem (hw.grounded.served i b hb)⟩
                obtain ⟨hattempt, hlog, _⟩ := step_opening hb hagent
                have hcontext : (w.step (.poll (.opening i))).context? i =
                    (w.openingTurn b agent).1.context? := by
                  unfold context?
                  rw [hattempt]
                  rfl
                rw [hlog, hcontext, Log.metrics_add]
                refine (congrArg (· + _) (ih.trans (by rw [hc]))).trans ?_
                exact (Nat.zero_add _).trans (b.createsOk_poll hnone ..)
              · obtain ⟨hattempt, hlog⟩ := opening_of_ne hb hnone ha
                have hcontext : (w.step a).context? i = none := by
                  unfold context?
                  rw [hattempt]
                  exact hnone
                rw [hlog, hcontext, ih, hc]

/-- An attempt has ended as often as its context has a terminal error. -/
theorem Reachable.endings_eq (hw : w.Reachable) (i : Nat) :
    (w.log i).endings = (w.context? i).toList.filterMap (·.error) := by
  cases hc : w.context? i with
  | none => exact Context.endings_of_isOpening (hw.grounded.opening i hc)
  | some c =>
      rw [(Context.teardown_invariant.holds hw hc).endings]
      cases h : c.error with
      | none => simp [h]
      | some e => simp [h]

/-! ## All attempts -/

/-- The contexts of a world, in the order of their attempts. -/
def contexts (w : World α) : List Context :=
  (List.range w.attempts.length).flatMap fun i => (w.context? i).toList

/-- The calls that are over, attempt by attempt. -/
def settlements (w : World α) : List Settlement :=
  (List.range w.attempts.length).flatMap fun i => (w.log i).settlements

/-- The entries of the first `n` attempts count for what their logs count for. -/
theorem total_of_first (w : World α) (n : Nat) {β : Type} {f : Metrics → Int} (hzero : f {} = 0)
    (hadd : ∀ m n : Metrics, f (m + n) = f m + f n) {items : Nat → List β} {p : β → Bool}
    (h : ∀ i, f (w.log i).metrics = (items i).countP p) :
    f (countEvents ((w.journal.filter (·.attempt < n)).map (·.event))) =
      ((List.range n).flatMap items).countP p := by
  induction n with
  | zero =>
      rw [List.filter_eq_nil_iff.mpr fun e _ => by simp]
      exact hzero
  | succ n ih =>
      have hbefore : (w.journal.filter (·.attempt < n + 1)).filter (!·.attempt == n) =
          w.journal.filter (·.attempt < n) := by
        rw [List.filter_filter]
        refine List.filter_congr fun e _ => ?_
        rw [Bool.eq_iff_iff]
        simp only [Bool.and_eq_true, Bool.not_eq_true', beq_eq_false_iff_ne, decide_eq_true_eq]
        omega
      have hlast : (w.journal.filter (·.attempt < n + 1)).filter (·.attempt == n) =
          w.journal.filter (·.attempt == n) := by
        rw [List.filter_filter]
        refine List.filter_congr fun e _ => ?_
        rw [Bool.eq_iff_iff]
        simp only [Bool.and_eq_true, beq_iff_eq, decide_eq_true_eq]
        omega
      rw [countEvents_split _ (·.attempt == n), hbefore, hlast, hadd, ih, log_metrics_eq, h,
        List.range_succ, List.flatMap_append, List.countP_append, List.flatMap_singleton]
      exact (Int.natCast_add _ _).symm

/-- **Sums.** A counter that agrees with every attempt agrees with all of them. -/
theorem Reachable.total (hw : w.Reachable) {β : Type} {f : Metrics → Int} (hzero : f {} = 0)
    (hadd : ∀ m n : Metrics, f (m + n) = f m + f n) {items : Nat → List β} {p : β → Bool}
    (h : ∀ i, f (w.log i).metrics = (items i).countP p) :
    f w.metrics = ((List.range w.attempts.length).flatMap items).countP p := by
  rw [← w.total_of_first w.attempts.length hzero hadd h,
    List.filter_eq_self.mpr fun e he => decide_eq_true (hw.grounded.placed e he)]
  exact congrArg f hw.metricsKept

theorem Reachable.total_nat (hw : w.Reachable) {β : Type} {f : Metrics → Nat} (hzero : f {} = 0)
    (hadd : ∀ m n : Metrics, f (m + n) = f m + f n) {items : Nat → List β} {p : β → Bool}
    (h : ∀ i, f (w.log i).metrics = (items i).countP p) :
    f w.metrics = ((List.range w.attempts.length).flatMap items).countP p := by
  have htotal := hw.total (f := fun m => f m) (congrArg Nat.cast hzero)
    (fun m n => by rw [hadd, Int.natCast_add]) fun i => congrArg Nat.cast (h i)
  exact Int.ofNat.inj htotal

/-! ## The counters -/

/-- Every context was counted when it was created. -/
theorem Reachable.createsOk_total (hw : w.Reachable) : w.metrics.createsOk = w.contexts.length := by
  have htotal := hw.total_nat (f := Metrics.createsOk) (p := fun _ : Context => true) rfl
    (fun _ _ => rfl) fun i => by rw [hw.createsOk_eq i, List.countP_true]
  rwa [List.countP_true] at htotal

/-- A context is active until it has a terminal error. -/
theorem Reachable.active_total (hw : w.Reachable) :
    w.metrics.active = w.contexts.countP (·.error.isNone) := by
  refine hw.total (f := Metrics.active) rfl (fun _ _ => rfl) fun i => ?_
  rw [Log.active_eq, hw.createsOk_eq i, hw.endings_eq i]
  cases hc : w.context? i with
  | none => rfl
  | some c => cases he : c.error <;> simp [he]

/-- A context is counted under the label of its terminal error. -/
theorem Reachable.teardowns_log (hw : w.Reachable) (i : Nat) (label : String) :
    (w.log i).metrics.teardowns label =
      (w.context? i).toList.countP fun c => c.error.any (·.reason == label) := by
  have hends : ∀ e ∈ (w.log i).endings, endsContext e = true := by
    rw [hw.endings_eq i]
    intro e he
    obtain ⟨c, hc, herror⟩ := List.mem_filterMap.mp he
    exact Context.terminal_invariant.holds hw (Option.mem_toList.mp hc) e herror
  rw [Log.teardowns_eq hends, hw.endings_eq i, List.countP_filterMap]
  refine List.countP_congr fun c _ => ?_
  cases c.error <;> simp

theorem Reachable.teardowns_total (hw : w.Reachable) (label : String) :
    w.metrics.teardowns label = w.contexts.countP fun c => c.error.any (·.reason == label) :=
  hw.total_nat (f := fun m => m.teardowns label) (Metrics.teardowns_empty label)
    (fun m n => m.teardowns_add n label) fun i => hw.teardowns_log i label

/-- A renewal that comes too late ends its context. -/
theorem Reachable.expired_total (hw : w.Reachable) :
    w.metrics.renewalsExpired = w.metrics.teardowns "renew_failed" := by
  have hlog : ∀ i, (w.log i).metrics.renewalsExpired =
      (w.log i).metrics.teardowns "renew_failed" := by
    intro i
    cases hc : w.context? i with
    | none =>
        obtain ⟨_, _, _, hmetrics⟩ := Log.metrics_of_isOpening (hw.grounded.opening i hc)
        rw [hmetrics]
        rfl
    | some c => exact Context.expired_invariant.holds hw hc
  rw [hw.teardowns_total]
  exact hw.total_nat (f := Metrics.renewalsExpired) rfl (fun _ _ => rfl)
    fun i => (hlog i).trans (hw.teardowns_log i _)

/-- A renewal is counted if it was over while its context was live. -/
theorem Reachable.renewals_total (hw : w.Reachable) :
    w.metrics.renewalsOk = (w.settlements.countP fun s => s.isRenewal && s.ok) ∧
      w.metrics.renewalsMissed + w.metrics.renewalsExpired =
        w.settlements.countP fun s => s.isRenewal && !s.ok := by
  refine ⟨?_, ?_⟩
  · exact hw.total_nat (f := Metrics.renewalsOk) rfl (fun _ _ => rfl)
      fun i => (Outcomes.mk.inj (hw.log_balanced i)).1
  · exact hw.total_nat (f := fun m => m.renewalsMissed + m.renewalsExpired) rfl
      (fun _ _ => Nat.add_add_add_comm ..) fun i => (Outcomes.mk.inj (hw.log_balanced i)).2.1

theorem Reachable.destroyFailures_total (hw : w.Reachable) :
    w.metrics.destroyFailures = w.settlements.countP (·.isUndestroyed) :=
  hw.total_nat (f := Metrics.destroyFailures) rfl (fun _ _ => rfl)
    fun i => (Outcomes.mk.inj (hw.log_balanced i)).2.2

/-- **The metrics account for every context.** After any actions, the gauge is the number of
contexts without a terminal error, so it is never negative, and zero once all have ended;
there was one creation for every context; each label counts the contexts whose terminal
error has it; the renewals counted are those that were over while their context was live,
those that succeeded apart, and those that came too late are the ones that ended a context;
and the destroy failures are the destroy attempts that were not answered well. -/
theorem metrics_account (agents : List Agent) (scopes : Scopes) (now : Nat)
    (actions : List (Action α)) :
    let w := (untouched agents scopes now : World α).run actions
    (w.metrics.active = w.contexts.countP (·.error.isNone) ∧ 0 ≤ w.metrics.active ∧
      (w.metrics.active = 0 ↔ ∀ c ∈ w.contexts, c.error.isSome = true)) ∧
    w.metrics.createsOk = w.contexts.length ∧
    (∀ label, w.metrics.teardowns label =
      w.contexts.countP fun c => c.error.any (·.reason == label)) ∧
    (w.metrics.renewalsOk + w.metrics.renewalsMissed + w.metrics.renewalsExpired =
        w.settlements.countP (·.isRenewal) ∧
      w.metrics.renewalsOk = w.settlements.countP fun s => s.isRenewal && s.ok) ∧
    w.metrics.renewalsExpired = w.metrics.teardowns "renew_failed" ∧
    w.metrics.destroyFailures = w.settlements.countP (·.isUndestroyed) := by
  intro w
  have hw : w.Reachable := reachable_run agents scopes now actions
  have hactive := hw.active_total
  obtain ⟨hok, hfailed⟩ := hw.renewals_total
  refine ⟨⟨hactive, ?_, ?_⟩, hw.createsOk_total, hw.teardowns_total, ⟨?_, hok⟩,
    hw.expired_total, hw.destroyFailures_total⟩
  · rw [hactive]
    exact Int.natCast_nonneg _
  · rw [hactive, Int.natCast_eq_zero, List.countP_eq_zero]
    refine forall₂_congr fun c _ => ?_
    cases c.error <;> simp
  · -- the renewals that went well and those that did not are all of them
    rw [Nat.add_assoc, hok, hfailed,
      List.countP_eq_countP_filter_add w.settlements (·.isRenewal) (·.ok), List.countP_filter,
      List.countP_filter]

/-- A context is cancelled while its second renewal is in flight, and its destroy call hangs. -/
def interrupted : World Unit :=
  (untouched [.scripted "s-1" (fun k => ⟨if k = 0 then some 5 else none, .ok ()⟩) ⟨none, .ok ()⟩]
    {} 0).run
    [.begin 0 0 { lockDelay := some (.ofMillis 20), ttl := some (.ofMillis 300) },
      .poll (.opening 0), .advance 100, .poll (.renewal 0), .advance 105, .poll (.renewal 0),
      .advance 200, .poll (.renewal 0), .call 0 .cancel, .poll (.caller 0), .poll (.renewal 0),
      .poll (.destruction 0), .advance 220, .poll (.destruction 0)]

/-- The interrupted renewal is over, and counted nowhere. -/
example : (interrupted.settlements.filter (·.call.isRenew)).map (·.live) = [true, false] ∧
    interrupted.metrics =
      { createsOk := 1, renewalsOk := 1, teardownsCancelled := 1, destroyFailures := 1 } := by
  decide +kernel

end World

end Tenure.Lifecycle
