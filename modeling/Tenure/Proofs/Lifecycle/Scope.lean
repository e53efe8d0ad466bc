import Mathlib.Data.List.Induction
import Tenure.Proofs.Lifecycle.Cancelling

/-!
# Work under a context runs only while the context is live

A caller that runs work under a context looks at the end before it runs the work, in
every turn. So the turns in which the work gets on are the turns that the caller takes
under the live context, and nothing else counts for what becomes of the work; once the
context has ended, the next turn tells the caller the terminal error.

* `Work.after` — what has become of work that was run at certain times;
* `World.liveTurns` — when a caller has had a turn under a live context;
* `World.Scoped` — the work is what these turns have left of it;
* `World.scope_while_live` — the whole of it, for every piece of work and every run.
-/

namespace Tenure.Lifecycle

variable {α : Type}

/-! ## Work and turns -/

/-- What has become of the work when it was run at the given times, one after the other:
its value, or what is left of it. -/
def Work.after : Work α → List Nat → α ⊕ Work α
  | work, [] => .inr work
  | work, t :: rest =>
    match (work.run t).1 with
    | .inl v => .inl v
    | .inr left => left.after rest

theorem Work.after_cons (work : Work α) (t : Nat) (rest : List Nat) :
    work.after (t :: rest) =
      match (work.run t).1 with
      | .inl v => .inl v
      | .inr left => left.after rest := rfl

theorem Work.after_concat (work : Work α) (times : List Nat) (t : Nat) :
    work.after (times ++ [t]) =
      match work.after times with
      | .inl v => .inl v
      | .inr left => (left.run t).1 := by
  induction times generalizing work with
  | nil =>
      rw [List.nil_append, after_cons]
      show _ = (work.run t).1
      cases (work.run t).1 <;> rfl
  | cons s rest ih =>
      rw [List.cons_append, after_cons, after_cons]
      cases (work.run s).1 with
      | inl v => rfl
      | inr left => exact ih left

namespace World

/-- Whether caller `j` is still there and the context of attempt `i` is live. -/
def isUnderway (w : World α) (i j : Nat) : Bool :=
  (w.context? i).any (·.error.isNone) && w.callers[j]?.any (!·.isOver)

/-- The time of the action if it is a turn of caller `j` under the live context. -/
def liveTurn (w : World α) (i j : Nat) : Action α → List Nat
  | .poll (.caller l) => if l = j ∧ w.isUnderway i j = true then [w.now] else []
  | _ => []

/-- When caller `j` has had a turn under the live context of attempt `i`, in the run of the
actions from `w`. -/
def liveTurns (w : World α) (i j : Nat) : List (Action α) → List Nat
  | [] => []
  | a :: rest => w.liveTurn i j a ++ (w.step a).liveTurns i j rest

theorem liveTurns_concat (w : World α) (i j : Nat) (actions : List (Action α)) (a : Action α) :
    w.liveTurns i j (actions ++ [a]) =
      w.liveTurns i j actions ++ (w.run actions).liveTurn i j a := by
  induction actions generalizing w with
  | nil => exact List.append_nil _
  | cons b rest ih =>
      show w.liveTurn i j b ++ (w.step b).liveTurns i j (rest ++ [a]) = _
      rw [ih, ← List.append_assoc]
      rfl

theorem liveTurn_of_ne (w : World α) (i : Nat) {j : Nat} {a : Action α}
    (h : a ≠ .poll (.caller j)) : w.liveTurn i j a = [] := by
  unfold liveTurn
  split
  · rename_i l
    exact if_neg fun hturn => h (by rw [hturn.1])
  · rfl

theorem liveTurn_poll {w : World α} {i j : Nat} {k : Caller α} {c : Context}
    (hk : w.callers[j]? = some k) (hc : w.context? i = some c) :
    w.liveTurn i j (.poll (.caller j)) =
      if c.error = none ∧ k.isOver = false then [w.now] else [] := by
  unfold liveTurn isUnderway
  rw [hk, hc]
  simp

end World

/-! ## Steps of work and the end -/

/-- Whether the event is a step of work under the context. -/
def Event.isWorked : Event → Bool
  | .worked _ => true
  | _ => false

theorem Event.isWorked_of_not_isWork {e : Event} (h : e.isWork = false) : e.isWorked = false := by
  cases e <;> first | rfl | exact absurd h (by simp [isWork])

namespace Context

/-- Only callers work. -/
theorem Move.not_work {s : Surroundings} {actor : Actor} {c c' : Context} {events : List Event}
    (h : Move s actor c events c') (hactor : ∀ asks, actor ≠ .caller asks) :
    ∀ e ∈ events, e.isWork = false := by
  have hone : ∀ {e : Event}, e.isWork = false → ∀ x ∈ [e], x.isWork = false := by simp
  cases h with
  | work _ _ => exact absurd rfl (hactor _)
  | cancel _ _ => exact absurd rfl (hactor _)
  | missed _ _ hfailed _ => cases hfailed <;> simp [Event.isWork]
  | expired _ _ hfailed _ => cases hfailed <;> simp [Event.isWork]
  | destroyOver _ hover => cases hover <;> simp [Event.isWork]
  | renewed _ _ _ _ => simp [Event.isWork]
  | leave _ _ => simp
  | tornDown _ _ => simp
  | handOutToken => simp
  | cancelToken _ => simp
  | _ => exact hone rfl

theorem Moves.not_work {s : Surroundings} {actor : Actor} {c c' : Context} {events : List Event}
    (h : Moves s actor c events c') (hactor : ∀ asks, actor ≠ .caller asks) :
    ∀ e ∈ events, e.isWork = false :=
  h.forall_events fun hmove => hmove.not_work hactor

end Context

namespace Caller

theorem not_worked_pollAwaitDestroyed (k : Caller α) (c : Context) (closing : Bool) :
    ∀ e ∈ (k.pollAwaitDestroyed c closing).2.2, e.isWorked = false := by
  unfold pollAwaitDestroyed pollAwaitRenewal
  split
  · split
    · split <;> simp [Event.isWorked]
    · simp
  · simp

theorem not_worked_pollCancel (k : Caller α) (c : Context) (closing : Bool) :
    ∀ e ∈ (k.pollCancel c closing).2.2, e.isWorked = false := by
  intro e he
  unfold pollCancel at he
  rcases List.mem_append.mp he with hending | hrest
  · unfold Context.conclude at hending
    split at hending
    · exact absurd hending List.not_mem_nil
    · rw [List.mem_singleton.mp hending]
      rfl
  · exact not_worked_pollAwaitDestroyed k _ closing e hrest

/-- A turn of a caller takes steps of work only under a live context, and then does nothing
else. -/
theorem worked_poll (k : Caller α) (now : Nat) (c : Context) :
    (∀ e ∈ (k.poll now c).2.2, e.isWorked = false) ∨
      c.done = false ∧ ∀ e ∈ (k.poll now c).2.2, e.ending? = none := by
  have hperformed : ∀ steps : List WorkStep, ∀ e ∈ steps.map Event.performed,
      e.isWorked = false := by simp [Event.isWorked]
  have hworked : ∀ steps : List WorkStep, ∀ e ∈ steps.map Event.worked,
      e.ending? = none := by simp [Event.ending?]
  unfold poll
  cases k.activity with
  | cancel => exact .inl (not_worked_pollCancel k c false)
  | close => exact .inl (not_worked_pollCancel k c true)
  | awaitDestroyed closing => exact .inl (not_worked_pollAwaitDestroyed k c closing)
  | awaitRenewal =>
      refine .inl ?_
      dsimp only
      unfold pollAwaitRenewal
      split <;> simp [Event.isWorked]
  | awaitEnd =>
      refine .inl ?_
      dsimp only
      split <;> simp
  | scope work =>
      dsimp only
      split
      · exact .inl (by simp)
      · rename_i hlive
        refine .inr ⟨Bool.eq_false_iff.mpr hlive, ?_⟩
        split <;> exact hworked _
  | perform work =>
      refine .inl ?_
      dsimp only
      split <;> exact hperformed _
  | returned o => exact .inl (by simp)
  | abandoned => exact .inl (by simp)

end Caller

namespace World

/-- No action takes a step of work under a context that has ended, nor ends a context in
which it works. -/
theorem Effect.worked {w : World α} (hw : w.Reachable) {i : Nat} {c c' : Context}
    {a : Action α} {events : List Event} (hc : w.context? i = some c)
    (h : w.Effect i c a c' events) :
    (∀ e ∈ events, e.isWorked = false) ∨
      c.done = false ∧ ∀ e ∈ events, e.ending? = .none := by
  obtain ⟨_, agent, hagent⟩ := hw.grounded.context_agent hc
  have hmoves := h.moves hagent (hw.grounded.signalled i c hc)
  have hidle : (∀ asks, w.actor i a ≠ .caller asks) → ∀ e ∈ events, e.isWorked = false :=
    fun hactor e he => Event.isWorked_of_not_isWork (hmoves.not_work hactor e he)
  cases h with
  | caller hk _ => exact Caller.worked_poll _ _ _
  | none => exact .inl (by simp)
  | renewal _ => exact .inl (hidle (by simp [actor]))
  | destruction _ => exact .inl (hidle (by simp [actor]))
  | abandon _ _ => exact .inl (hidle (by simp [actor]))
  | drop => exact .inl (hidle (by simp [actor]))
  | handOutToken => exact .inl (hidle (by simp [actor]))
  | cancelToken _ => exact .inl (hidle (by simp [actor]))

/-- **No work after the end.** -/
theorem Reachable.works_first {w : World α} (hw : w.Reachable) (i : Nat) :
    (w.log i).Pairwise fun x y => x.2.ending? = none ∨ y.2.isWorked = false := by
  induction hw with
  | start agents scopes now => exact .nil
  | @step w a hw ih =>
      cases hc : w.context? i with
      | none =>
          have hall := hw.grounded.opening_step hc a
          refine List.pairwise_of_forall_mem_list fun _ _ y hy => .inr ?_
          have hopening := hall y hy
          revert hopening
          cases y.2 <;> simp [Event.isOpening, Event.isWorked]
      | some c =>
          obtain ⟨c', events, _, hlog, heffect⟩ := step_effect hc a
          rw [hlog, List.pairwise_append, List.pairwise_map]
          rcases heffect.worked hw hc with hidle | ⟨hlive, hends⟩
          · refine ⟨ih, ?_, fun x _ y hy => ?_⟩
            · exact List.pairwise_of_forall_mem_list fun _ _ y hy => .inr (hidle y hy)
            · obtain ⟨e, he, rfl⟩ := List.mem_map.mp hy
              exact .inr (hidle e he)
          · -- the context is live, so nothing in its log is an end
            have hnone := (Context.teardown_invariant.holds hw hc).endings
            rw [(hw.grounded.signalled i c hc).live_of_not_done hlive] at hnone
            refine ⟨ih, ?_, fun x hx _ _ => .inl ?_⟩
            · exact List.pairwise_of_forall_mem_list fun x hx _ _ => .inl (hends x hx)
            · exact List.filterMap_eq_nil_iff.mp hnone x hx

theorem Reachable.not_worked_after {w : World α} (hw : w.Reachable) {i : Nat}
    {before after : List Event} {e : SessionError}
    (h : w.eventsOf i = before ++ .ending e :: after) (s : WorkStep) : .worked s ∉ after := by
  intro hs
  have hpairs : ((w.log i).map (·.2)).Pairwise fun x y =>
      x.ending? = none ∨ y.isWorked = false := List.pairwise_map.mpr (hw.works_first i)
  rw [← eventsOf_eq, h, List.pairwise_append, List.pairwise_cons] at hpairs
  exact absurd (hpairs.2.1.1 _ hs) (by simp [Event.ending?, Event.isWorked])

end World

/-! ## A caller that runs work -/

namespace Context

/-- Where a caller can stand that runs the work under the context and has had turns at these
times while the context was live. -/
inductive Working (work : Work α) (turns : List Nat) (c : Context) : Activity α → Prop
  | running {left : Work α} (hleft : work.after turns = .inr left) :
      Working work turns c (.scope left)
  | finished {v : α} (hvalue : work.after turns = .inl v) :
      Working work turns c (.returned (.value v))
  | lost {left : Work α} (hleft : work.after turns = .inr left) {e : SessionError}
      (herror : c.error = some e) : Working work turns c (.returned (.lost e))
  | abandoned {left : Work α} (hleft : work.after turns = .inr left) :
      Working work turns c .abandoned

variable {work : Work α} {turns : List Nat} {c c' : Context} {activity : Activity α}
  {k : Caller α}

theorem Working.move {s : Surroundings} {actor : Actor} {events : List Event}
    (h : c.Working work turns activity) (hmove : Move s actor c events c') :
    c'.Working work turns activity := by
  cases h with
  | running hleft => exact .running hleft
  | finished hvalue => exact .finished hvalue
  | lost hleft herror => exact .lost hleft (hmove.error_of_error herror)
  | abandoned hleft => exact .abandoned hleft

theorem Working.of_pending (h : c.Working work turns k.activity) (hover : k.isOver = false) :
    ∃ left, k.activity = .scope left ∧ work.after turns = .inr left := by
  unfold Caller.isOver at hover
  generalize k.activity = activity at h hover
  cases h with
  | running hleft => exact ⟨_, rfl, hleft⟩
  | finished _ => exact absurd hover (by simp)
  | lost _ _ => exact absurd hover (by simp)
  | abandoned _ => exact absurd hover (by simp)

theorem poll_scope_of_done {left : Work α} (hactivity : k.activity = .scope left)
    (hdone : c.done = true) (now : Nat) :
    k.poll now c = ({ k with activity := .returned (.lost c.terminalError) }, c, []) := by
  unfold Caller.poll
  rw [hactivity]
  exact if_pos hdone

/-- A turn of a caller that runs work: under a live context the work gets on. -/
theorem Working.poll (h : c.Working work turns k.activity) (hs : c.Signalled) (now : Nat) :
    Working work (turns ++ if c.error = none ∧ k.isOver = false then [now] else [])
      (k.poll now c).2.1 (k.poll now c).1.activity := by
  by_cases hover : k.isOver = true
  · rw [Caller.poll_of_isOver hover, if_neg (by simp [hover]), List.append_nil]
    exact h
  have hpending := Bool.eq_false_iff.mpr hover
  obtain ⟨left, hactivity, hleft⟩ := h.of_pending hpending
  by_cases hdone : c.done = true
  · have hended := hs.error_of_done hdone
    have hnot : ¬(c.error = none ∧ k.isOver = false) := fun hlive => by
      rw [hlive.1] at hended
      exact absurd hended Bool.false_ne_true
    rw [poll_scope_of_done hactivity hdone, if_neg hnot, List.append_nil]
    exact .lost hleft (error_eq_terminalError hended)
  · have hlive := hs.live_of_not_done (Bool.eq_false_iff.mpr hdone)
    have hnext := work.after_concat turns now
    rw [hleft] at hnext
    rw [if_pos ⟨hlive, hpending⟩]
    unfold Caller.poll
    rw [hactivity]
    dsimp only at hnext ⊢
    rw [if_neg hdone]
    rcases hrun : left.run now with ⟨v | rest, steps⟩
    · rw [hrun] at hnext
      exact .finished hnext
    · rw [hrun] at hnext
      exact .running hnext

theorem Working.abandon (h : c.Working work turns k.activity) :
    Working work turns (k.abandon c).2.1 (k.abandon c).1.activity := by
  by_cases hover : k.isOver = true
  · rw [Caller.abandon_of_isOver hover]
    exact h
  · obtain ⟨left, hactivity, hleft⟩ := h.of_pending (Bool.eq_false_iff.mpr hover)
    unfold Caller.abandon
    rw [hactivity]
    exact .abandoned hleft

end Context

namespace World

/-- Caller `j` runs the work under the context of attempt `i` since the time `since`, and has
had turns at these times while the context was live. If it is still there, this is the
moment at which it has come, or the context has not ended earlier than now. -/
structure Scoped (w : World α) (i j since : Nat) (work : Work α) (turns : List Nat)
    (k : Caller α) (c : Context) : Prop where
  caller : w.callers[j]? = some k
  context : w.context? i = some c
  attempt : k.attempt = i
  stands : c.Working work turns k.activity
  early : k.isOver = false → w.now ≤ since ∨ ∀ ended ∈ (w.log i).endTimes, w.now ≤ ended

variable {w : World α} {i j since : Nat} {work : Work α} {turns : List Nat} {k : Caller α}
  {c : Context}

/-- A caller whose context has ended has something to do. -/
theorem Scoped.ready (h : w.Scoped i j since work turns k c) (hover : k.isOver = false)
    (hdone : c.done = true) : w.isReady (.caller j) = true := by
  obtain ⟨left, hactivity, _⟩ := h.stands.of_pending hover
  simp [isReady, h.caller, h.attempt, h.context, Caller.isReady, hactivity, hdone]

theorem Scoped.step (h : w.Scoped i j since work turns k c) (hw : w.Reachable) (a : Action α) :
    ∃ k' c', (w.step a).Scoped i j since work (turns ++ w.liveTurn i j a) k' c' := by
  have hc := h.context
  have hs := hw.grounded.signalled i c hc
  obtain ⟨k', c', hk', hc', hnext⟩ := caller_next h.caller (h.attempt ▸ hc) a
  rw [h.attempt] at hc'
  refine ⟨k', c', hk', hc', hnext.attempt.trans h.attempt, ?_, fun hover => ?_⟩
  · cases hnext with
    | polled =>
        rw [liveTurn_poll h.caller hc]
        exact h.stands.poll hs w.now
    | abandoned =>
        rw [liveTurn_of_ne w i (by simp), List.append_nil]
        exact h.stands.abandon
    | waits hturn _ _ =>
        rw [liveTurn_of_ne w i hturn, List.append_nil]
        obtain ⟨c'', hc'', hstands⟩ := hw.keeps_step hc
          (P := fun c => c.Working work turns k.activity) (fun hmove hs => hs.move hmove) h.stands a
        obtain rfl := Option.some.inj (hc'.symm.trans hc'')
        exact hstands
  · have hbefore := hnext.pending hover
    rcases hw.step_context hc a with ⟨t, hw', hpassing⟩ |
      ⟨_, c'', events, _, hnow, _, hlog, _, _⟩
    · -- time passes only while the context is live
      have hquiet : w.isQuiet = true := quiet_of_later (by rw [hw']; exact hpassing.later)
      have hlive : c.error = none := by
        refine hs.live_of_not_done (Bool.eq_false_iff.mpr fun hdone => ?_)
        have hprocess := caller_mem_processes (List.getElem?_eq_some_iff.mp h.caller).1
        exact absurd ((h.ready hbefore hdone).symm.trans (not_ready_of_quiet hquiet hprocess))
          (by simp)
      obtain ⟨htorn, htimed⟩ := Context.timed_invariant.holds hw hc
      refine .inr fun ended hended => ?_
      rw [hw'] at hended
      have hmem : ended ∈ (w.log i).endTimes := hended
      rw [htimed.endTimes_of_live htorn hlive] at hmem
      exact absurd hmem List.not_mem_nil
    · rw [hnow]
      refine (h.early hbefore).imp_right fun hearly ended hended => ?_
      rw [hlog, Log.endTimes_append] at hended
      rcases List.mem_append.mp hended with hold | hnew
      · exact hearly ended hold
      · obtain ⟨x, hx, htime⟩ := List.mem_filterMap.mp hnew
        obtain ⟨e, _, rfl⟩ := List.mem_map.mp hx
        obtain ⟨_, _, rfl⟩ := Option.map_eq_some_iff.mp htime
        exact Nat.le_refl _

/-- Whoever runs work under a context is a caller from then on. -/
theorem scoped_call (hc : w.context? i = some c) (work : Work α) :
    (w.step (.call i (.scope work))).Scoped i w.callers.length w.now work []
      ⟨i, .scope work⟩ c := by
  rw [step_call hc]
  exact ⟨List.getElem?_concat_length, hc, rfl, .running rfl, fun _ => .inl (Nat.le_refl _)⟩

theorem Reachable.scoped_run (hw : w.Reachable) (h : w.Scoped i j since work [] k c)
    (more : List (Action α)) :
    ∃ k' c', (w.run more).Scoped i j since work (w.liveTurns i j more) k' c' := by
  induction more using List.reverseRecOn with
  | nil => exact ⟨k, c, h⟩
  | append_singleton more a ih =>
      obtain ⟨k', c', hscoped⟩ := ih
      rw [run_concat, liveTurns_concat]
      exact hscoped.step (hw.run more) a

/-- Under a context that has ended there are no turns that count. -/
theorem Reachable.liveTurns_of_ended (hw : w.Reachable) (hc : w.context? i = some c)
    (hended : c.error.isSome = true) (j : Nat) (more : List (Action α)) :
    w.liveTurns i j more = [] := by
  obtain ⟨e, he⟩ := Option.isSome_iff_exists.mp hended
  induction more generalizing w c with
  | nil => rfl
  | cons a rest ih =>
      obtain ⟨c', hc', he'⟩ := hw.error_step hc he a
      have hnone : w.liveTurn i j a = [] := by
        unfold liveTurn
        split
        · simp [isUnderway, hc, he]
        · rfl
      show w.liveTurn i j a ++ _ = []
      rw [hnone, ih (hw.step a) hc' (by rw [he']; rfl) he']
      rfl

/-- **Nobody works on for long.** Later than the end, a caller that was not given up has
returned. -/
theorem Reachable.scope_returns (hw : w.Reachable) (hc : w.context? i = some c)
    {work : Work α} {more : List (Action α)} (hkept : .abandon w.callers.length ∉ more)
    {u : World α} (hu : u = (w.step (.call i (.scope work))).run more) {c' : Context}
    (hscoped : u.Scoped i w.callers.length w.now work turns k c') {ended : Nat}
    (hended : ended ∈ (u.log i).endTimes) (hlater : max w.now ended < u.now) :
    ∃ o, k.outcome? = some o := by
  have hover : k.isOver = true := by
    by_contra hover
    rcases hscoped.early (Bool.eq_false_iff.mpr hover) with hsince | hearly
    · omega
    · have hbound := hearly ended hended
      omega
  subst hu
  exact (hw.step _).returned (scoped_call hc work).caller (by simp) hkept hscoped.caller hover

/-- The value of the work, or the terminal error of the context: a caller that runs work is
given nothing else. -/
theorem Scoped.outcome (h : w.Scoped i j since work turns k c) {o : Outcome α}
    (ho : k.outcome? = some o) : (∃ v, o = .value v ∧ work.after turns = .inl v) ∨
      ∃ e left, o = .lost e ∧ c.error = some e ∧ work.after turns = .inr left := by
  have hstands := h.stands
  unfold Caller.outcome? at ho
  generalize k.activity = activity at hstands ho
  cases hstands with
  | running _ => exact absurd ho (by simp)
  | abandoned _ => exact absurd ho (by simp)
  | finished hvalue =>
      obtain rfl := Option.some.inj ho
      exact .inl ⟨_, rfl, hvalue⟩
  | lost hleft herror =>
      obtain rfl := Option.some.inj ho
      exact .inr ⟨_, _, rfl, herror, hleft⟩

theorem Scoped.left (h : w.Scoped i j since work turns k c) {left : Work α}
    (hactivity : k.activity = .scope left) : work.after turns = .inr left := by
  have hpending : k.isOver = false := by unfold Caller.isOver; rw [hactivity]
  obtain ⟨left', hactivity', hleft⟩ := h.stands.of_pending hpending
  obtain rfl := Activity.scope.inj (hactivity.symm.trans hactivity')
  exact hleft

theorem Scoped.value_iff (h : w.Scoped i j since work turns k c) (v : α) :
    k.outcome? = some (.value v) ↔ work.after turns = .inl v := by
  constructor
  · intro ho
    rcases h.outcome ho with ⟨v', hv, hvalue⟩ | ⟨e, left, hlost, _⟩
    · obtain rfl := Outcome.value.inj hv
      exact hvalue
    · exact absurd hlost (by simp)
  · intro hvalue
    have hstands := h.stands
    unfold Caller.outcome?
    generalize k.activity = activity at hstands
    cases hstands with
    | finished hvalue' =>
        obtain rfl := Sum.inl.inj (hvalue.symm.trans hvalue')
        rfl
    | running hleft => exact absurd (hvalue.symm.trans hleft) (by simp)
    | lost hleft _ => exact absurd (hvalue.symm.trans hleft) (by simp)
    | abandoned hleft => exact absurd (hvalue.symm.trans hleft) (by simp)

/-- In the first turn after the end the caller is told the terminal error, however far the
work has come. -/
theorem Scoped.lost_next (h : w.Scoped i j since work turns k c) (hw : w.Reachable)
    (hover : k.isOver = false) {e : SessionError} (he : c.error = some e) :
    w.isReady (.caller j) = true ∧ ∃ k', (w.step (.poll (.caller j))).callers[j]? = some k' ∧
      k'.outcome? = some (.lost e) := by
  have hc := h.context
  have hdone : c.done = true := by
    rw [hw.grounded.signalled i c hc, he]
    rfl
  refine ⟨h.ready hover hdone, ?_⟩
  obtain ⟨left, hactivity, _⟩ := h.stands.of_pending hover
  obtain ⟨k', c', hk', _, hnext⟩ := caller_next h.caller (h.attempt ▸ hc) (.poll (.caller j))
  refine ⟨k', hk', ?_⟩
  cases hnext with
  | waits hturn _ _ => exact absurd rfl hturn
  | polled =>
      rw [Context.poll_scope_of_done hactivity hdone, Context.terminalError_of_error he]
      rfl

/-- In every course of events a caller that is not given up is told how the context has
ended, unless it was given the value of the work. -/
theorem Reachable.scope_ends (hw : w.Reachable) (hc : w.context? i = some c) {work : Work α}
    (course : Course (w.step (.call i (.scope work))))
    (hkept : ∀ n, course.action n ≠ .abandon w.callers.length) {n : Nat} {c' : Context}
    (hcn : (course.world n).context? i = some c') {e : SessionError} (he : c'.error = some e) :
    ∃ m k, (course.world m).callers[w.callers.length]? = some k ∧
      (k.outcome? = some (.lost e) ∨ ∃ v, k.outcome? = some (.value v)) := by
  have hcalled := hw.step (.call i (.scope work))
  have hn := course.reachable hcalled n
  -- the end is in the log from now on, and the clock goes beyond it
  obtain ⟨htorn, htimed⟩ := Context.timed_invariant.holds hn hcn
  obtain ⟨ended, hended⟩ := htimed.exists_end htorn (by rw [he]; rfl)
  obtain ⟨m, hm⟩ := course.later n (max w.now ended + 1)
  obtain ⟨more, hmore⟩ := course.world_add n m
  have hlater : ended ∈ ((course.world (n + m)).log i).endTimes := by
    obtain ⟨added, hadded⟩ := log_prefix_run (course.world n) more i
    rw [hmore, ← hadded, Log.endTimes_append]
    exact List.mem_append_left _ hended
  obtain ⟨k, c'', hscoped⟩ := hcalled.scoped_run (scoped_call hc work) (course.actions (n + m))
  rw [← course.world_eq_run] at hscoped
  obtain ⟨o, ho⟩ := hw.scope_returns hc (course.not_mem_actions hkept (n + m))
    (course.world_eq_run (n + m)) hscoped hlater (by omega)
  refine ⟨n + m, k, hscoped.caller, ?_⟩
  rcases hscoped.outcome ho with ⟨v, rfl, _⟩ | ⟨e', _, rfl, herror, _⟩
  · exact .inr ⟨v, ho⟩
  · -- the terminal error stays the same
    obtain ⟨c₁, hc₁, he₁⟩ := hn.keeps hcn (fun hmove => hmove.error_of_error) he more
    rw [← hmore] at hc₁
    obtain rfl := Option.some.inj (hscoped.context.symm.trans hc₁)
    obtain rfl := Option.some.inj (he₁.symm.trans herror)
    exact .inl ho

/-- **Work under a context runs only while the context is live.** Let somebody run work
under a context, at whatever moment. No step of work is taken after the end, and none at
all if the context has ended before. What has become of the work is what the turns under
the live context have made of it: the caller is given the value exactly if the work has
yielded it in these turns. Otherwise, once the context has ended, the caller is told the
terminal error in its next turn, before any time passes; it is the error that the context
shows and that everybody else is told. -/
theorem scope_while_live {w : World α} (hw : w.Reachable) {i : Nat} {c₀ : Context}
    (hc : w.context? i = some c₀) (work : Work α) :
    let called := w.step (.call i (.scope work))
    let j := w.callers.length
    (∀ more, ∃ k c, (called.run more).callers[j]? = some k ∧
      (called.run more).context? i = some c ∧
      let u := called.run more
      let turns := called.liveTurns i j more
      (∀ before e after, u.eventsOf i = before ++ .ending e :: after →
        ∀ s, .worked s ∉ after) ∧
      (c₀.error.isSome = true → turns = []) ∧
      (∀ v, k.outcome? = some (.value v) ↔ work.after turns = .inl v) ∧
      (∀ left, k.activity = .scope left → work.after turns = .inr left) ∧
      (∀ o, k.outcome? = some o →
        (∃ v, o = .value v) ∨ ∃ e, o = .lost e ∧ c.error = some e) ∧
      (∀ (l : Nat) (k' : Caller α) (e : SessionError), u.callers[l]? = some k' →
        k'.attempt = i → k'.told? = some e → c.error = some e) ∧
      (∀ e, c.error = some e → k.isOver = false → u.isReady (.caller j) = true ∧
        ∃ k', (u.step (.poll (.caller j))).callers[j]? = some k' ∧
          k'.outcome? = some (.lost e)) ∧
      (∀ ended e, (ended, .ending e) ∈ u.log i → max w.now ended < u.now →
        .abandon j ∉ more → ∃ o, k.outcome? = some o)) ∧
    (∀ course : Course called, (∀ n, course.action n ≠ .abandon j) →
      ∀ n c e, (course.world n).context? i = some c → c.error = some e →
        ∃ m k, (course.world m).callers[j]? = some k ∧
          (k.outcome? = some (.lost e) ∨ ∃ v, k.outcome? = some (.value v))) := by
  intro called j
  have hcalled : called.Reachable := hw.step _
  have hbegun := scoped_call hc work
  refine ⟨fun more => ?_, fun course hkept n c' e hcn he =>
    hw.scope_ends hc course hkept hcn he⟩
  have hu := hcalled.run more
  obtain ⟨k, c, hscoped⟩ := hcalled.scoped_run hbegun more
  refine ⟨k, c, hscoped.caller, hscoped.context, fun before e after => hu.not_worked_after, ?_,
    hscoped.value_iff, fun left => hscoped.left, ?_, ?_, ?_, ?_⟩
  · exact fun hended => hcalled.liveTurns_of_ended hbegun.context hended j more
  · intro o ho
    rcases hscoped.outcome ho with ⟨v, hv, _⟩ | ⟨e, _, hlost, herror, _⟩
    · exact .inl ⟨v, hv⟩
    · exact .inr ⟨e, hlost, herror⟩
  · intro l k' e hk' hi htold
    obtain ⟨c', hc', herror⟩ := hu.told hk' htold
    rw [hi] at hc'
    obtain rfl := Option.some.inj (hscoped.context.symm.trans hc')
    exact herror
  · exact fun e he hover => hscoped.lost_next hu hover he
  · intro ended e hending hlater hkept
    exact hw.scope_returns hc hkept rfl hscoped (Log.mem_endTimes hending) hlater

/-- A context under which somebody wants to work. -/
def workplace : World Nat :=
  (untouched [.scripted "s-1" (fun _ => ⟨some 0, .ok ()⟩) ⟨none, .ok ()⟩] {} 0).run
    [.begin 0 0 { lockDelay := some (.ofMillis 20), ttl := some (.ofMillis 300) },
      .poll (.opening 0)]

/-- Work that would yield its value after five milliseconds. -/
def shift : Work Nat := .step (.mark 1) (.sleep 5 (.yield 7))

/-- The context is closed at the very moment at which the work would get on. -/
def untimely : List (Action Nat) :=
  [.poll (.caller 0), .advance 5, .call 0 .close, .poll (.caller 1)]

theorem scope_while_live_of_untimely :
    ∃ k, (((workplace.step (.call 0 (.scope shift))).run untimely).step
        (.poll (.caller 0))).callers[0]? = some k ∧
      k.outcome? = some (.lost .cancelled) ∧
      (workplace.step (.call 0 (.scope shift))).liveTurns 0 0 untimely = [0] ∧
      shift.after [0, 5] = .inl 7 := by
  have hc : workplace.context? 0 = some ((workplace.context? 0).get (by decide +kernel)) :=
    (Option.some_get _).symm
  have hcallers : workplace.callers.length = 0 := by decide +kernel
  have herror : (((workplace.step (.call 0 (.scope shift))).run untimely).context? 0).bind
    (·.error) = some .cancelled := by decide +kernel
  have hover : ((workplace.step (.call 0 (.scope shift))).run untimely).callers[0]?.map
    (·.isOver) = some false := by decide +kernel
  obtain ⟨hmoments, _⟩ := scope_while_live (w := workplace) (reachable_run _ _ _ _) hc shift
  obtain ⟨k, c, hk, hc', _, _, _, _, _, _, hlost, _⟩ := hmoments untimely
  rw [hcallers] at hk hlost
  rw [hc'] at herror
  rw [hk] at hover
  obtain ⟨_, k', hk', ho⟩ := hlost .cancelled herror (Option.some.inj hover)
  exact ⟨k', hk', ho, by decide +kernel, rfl⟩

end World

end Tenure.Lifecycle
