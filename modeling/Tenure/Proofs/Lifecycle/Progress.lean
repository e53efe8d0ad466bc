import Mathlib.Algebra.GroupWithZero.Nat
import Mathlib.Data.Nat.Find
import Tenure.Proofs.Lifecycle.Callers

/-!
# Runs go on

A world left to itself never gets stuck and never spins: its processes have only
so many turns to take at one reading of the clock, and when they have taken them
the clock can move on.

* `World.load` — how many turns there can still be at the present time: every turn
  of a process that is ready lowers it (`World.load_poll`);
* `World.Reachable.settle` — the processes come to rest without time passing;
* `World.Reachable.progress` — a world left to itself reaches any reading of the clock;
* `Course` — an endless run in which time goes on without end; every reachable world
  has one (`Course.drift`);
* `Course.exists_by` — what has to have come when the clock is past a limit has come
  before.
-/

namespace Tenure.Lifecycle

variable {α : Type}

/-! ## Loads -/

/-- The turns that the renewal task can still take: a tick that is due brings two more. -/
def Renewal.load (now : Nat) : Renewal → Nat
  | .waiting tick _ => 2 * (toNanos now + 1 - tick) + 2
  | .renewing tick _ _ => 2 * (toNanos now + 1 - tick) + 3
  | .tearingDown => 1
  | .exited => 0

/-- The turns that the destruction task can still take, and the end before them. -/
def Destruction.load : Destruction → Nat
  | .idle => 3
  | .queued => 2
  | .calling _ => 1
  | .finished => 0

def Context.load (now : Nat) (c : Context) : Nat := c.renewal.load now + c.destruction.load

/-- The turns of an attempt, and those of the context that it may get. -/
def Attempt.load (now : Nat) (a : Attempt) : Nat :=
  match a.stage with
  | .fresh => 9
  | .creating .. => 8
  | .refused _ => 0
  | .brokenDown => 0
  | .begun c => c.load now

def Work.load (now : Nat) (work : Work α) : Nat := if work.isReady now then 2 else 1

def Caller.load (now : Nat) (k : Caller α) : Nat :=
  match k.activity with
  | .cancel => 4
  | .close => 4
  | .awaitDestroyed _ => 3
  | .awaitRenewal => 2
  | .awaitEnd => 1
  | .scope work => work.load now
  | .perform work => work.load now
  | .returned _ => 0
  | .abandoned => 0

/-- How many turns there can still be at the present time. -/
def World.load (w : World α) : Nat :=
  (w.attempts.map (·.load w.now)).sum + (w.callers.map (·.load w.now)).sum

theorem sum_map_set {β : Type} (f : β → Nat) {l : List β} {i : Nat} {x : β}
    (h : l[i]? = some x) (y : β) :
    ((l.set i y).map f).sum + f x = (l.map f).sum + f y := by
  induction l generalizing i with
  | nil => exact absurd h (by simp)
  | cons z rest ih =>
      cases i with
      | zero =>
          obtain rfl := Option.some.inj h
          simp only [List.set_cons_zero, List.map_cons, List.sum_cons]
          omega
      | succ i =>
          have hrest := ih (i := i) (by simpa using h)
          simp only [List.set_cons_succ, List.map_cons, List.sum_cons]
          omega

/-! ## Turns of the tasks -/

/-- A deadline that is due stays due. -/
theorem isDue_of_wakeAt_le {deadline now : Nat} (h : wakeAt deadline ≤ now) :
    isDue deadline now = true := by
  refine decide_eq_true ?_
  have hdue := of_decide_eq_true (isDue_wakeAt deadline)
  exact Nat.le_trans hdue (Nat.mul_le_mul_left nanosPerMilli h)

namespace Pending

theorem standing_of_settled {β : Type} {call : Pending β} {now : Nat}
    (h : call.isSettled now = true) : call.standing now ≠ .waiting := by
  unfold isSettled at h
  unfold standing
  rcases Bool.or_eq_true _ _ ▸ h with hready | hdue
  · rw [if_pos hready]
    simp
  · rw [if_pos hdue]
    split <;> simp

theorem settled_of_wake {β : Type} {call : Pending β} {now : Nat} (h : call.wake ≤ now) :
    call.isSettled now = true := by
  unfold wake at h
  unfold isSettled isReady
  rw [Bool.or_eq_true]
  cases hat : call.readyAt with
  | none =>
      rw [hat] at h
      exact .inr (isDue_of_wakeAt_le h)
  | some t =>
      rw [hat] at h
      dsimp only at h
      rcases Nat.le_total t (wakeAt call.limit) with hfirst | hfirst
      · rw [Nat.min_eq_left hfirst] at h
        exact .inl (by simpa using h)
      · rw [Nat.min_eq_right hfirst] at h
        exact .inr (isDue_of_wakeAt_le h)

end Pending

namespace Context

/-- What keeps a context from taking turns for ever: its period is not zero, and it has
no destroy attempt while it is live. -/
structure Steady (c : Context) : Prop where
  signalled : c.Signalled
  period : 0 < c.period.nanos
  idle : c.error = none → c.destruction = .idle

theorem lt_nextTick {c : Context} (h : 0 < c.period.nanos) {tick now : Nat}
    (hdue : isDue tick now = true) : tick < c.nextTick tick now := by
  have hreached := of_decide_eq_true hdue
  unfold nextTick
  split <;> omega

/-- No move makes more turns of the tasks, and a move of a task uses one up. -/
theorem Move.load_le {s : Surroundings} {actor : Actor} {c c' : Context} {events : List Event}
    (h : Move s actor c events c') (hc : c.Steady) :
    c'.load s.now ≤ c.load s.now ∧
      (actor.isTask = true → c'.load s.now < c.load s.now) := by
  have hlower : ∀ {m n : Nat}, m < n → m ≤ n ∧ (actor.isTask = true → m < n) :=
    fun hlt => ⟨Nat.le_of_lt hlt, fun _ => hlt⟩
  cases h with
  | leave hrenewal _ => refine hlower ?_; simp [load, hrenewal, Renewal.load]
  | orphaned hrenewal hlive _ =>
      refine hlower ?_
      simp [load, hrenewal, hc.idle hlive, Renewal.load, Destruction.load, ended]
  | givenUp hrenewal hlive _ =>
      refine hlower ?_
      simp [load, hrenewal, hc.idle hlive, Renewal.load, Destruction.load, ended]
  -- the next tick is later, which is worth two turns: the call and what comes of it
  | issueRenewal hrenewal _ _ _ hdue =>
      refine hlower ?_
      have hlater := lt_nextTick hc.period hdue
      have hreached := of_decide_eq_true hdue
      simp only [load, hrenewal, Renewal.load]
      omega
  | interrupted hrenewal _ => refine hlower ?_; simp [load, hrenewal, Renewal.load]
  | renewed hrenewal _ _ _ => refine hlower ?_; simp [load, hrenewal, Renewal.load]
  | missed hrenewal _ _ _ => refine hlower ?_; simp [load, hrenewal, Renewal.load]
  | expired hrenewal hlive _ _ =>
      refine hlower ?_
      simp [load, hrenewal, hc.idle hlive, Renewal.load, Destruction.load, ended]
  | tornDown hrenewal _ => refine hlower ?_; simp [load, hrenewal, Renewal.load]
  | issueDestroy hqueued => refine hlower ?_; simp [load, hqueued, Destruction.load]
  | destroyOver hcalling _ =>
      refine hlower ?_
      simp [load, hcalling, Destruction.load, destructionOver]
  | cancel _ hlive =>
      refine hlower ?_
      simp [load, hc.idle hlive, Destruction.load, ended]
  | drop hactor c => exact ⟨Nat.le_refl _, fun htask => absurd (hactor.symm.trans htask) (by simp)⟩
  | work c _ => exact ⟨Nat.le_refl _, fun htask => absurd htask (by simp [Actor.isTask])⟩
  | handOutToken c => exact ⟨Nat.le_refl _, fun htask => absurd htask (by simp [Actor.isTask])⟩
  | cancelToken c k => exact ⟨Nat.le_refl _, fun htask => absurd htask (by simp [Actor.isTask])⟩

theorem Move.steady {s : Surroundings} {actor : Actor} {c c' : Context} {events : List Event}
    (h : Move s actor c events c') (hc : c.Steady) : c'.Steady := by
  refine ⟨h.signalled hc.signalled, ?_, ?_⟩
  · rw [h.period_eq]
    exact hc.period
  · intro hlive
    cases h.atTheEnd with
    | apart herror hdestruction _ _ _ => exact hdestruction.trans (hc.idle (herror ▸ hlive))
    | ends _ _ herror _ _ _ _ => exact absurd (herror.symm.trans hlive) (by simp)
    | calls _ hqueued herror _ _ _ _ =>
        exact absurd (hqueued.symm.trans (hc.idle (herror ▸ hlive))) (by simp)
    | settles _ hcalling herror _ _ _ _ =>
        exact absurd (hcalling.symm.trans (hc.idle (herror ▸ hlive))) (by simp)

theorem Moves.load_le {s : Surroundings} {actor : Actor} {c c' : Context} {events : List Event}
    (h : Moves s actor c events c') (hc : c.Steady) : c'.load s.now ≤ c.load s.now := by
  induction h with
  | none c => exact Nat.le_refl _
  | cons first _ ih => exact Nat.le_trans (ih (first.steady hc)) (first.load_le hc).1

/-- A turn of a task in which anything happens uses up a turn. -/
theorem Moves.load_lt {s : Surroundings} {actor : Actor} {c c' : Context} {events : List Event}
    (h : Moves s actor c events c') (hc : c.Steady) (htask : actor.isTask = true)
    (hsome : (c', events) ≠ (c, [])) : c'.load s.now < c.load s.now := by
  cases h with
  | none => exact absurd rfl hsome
  | cons first rest =>
      exact Nat.lt_of_le_of_lt (rest.load_le (first.steady hc)) ((first.load_le hc).2 htask)

theorem renewal_tearDown (c : Context) (e : SessionError) :
    (c.tearDown e).1.renewal = .tearingDown := rfl

/-- Something happens in a turn of the renewal task when it is ready. -/
theorem pollRenewal_ne {s : Surroundings} {c : Context}
    (h : c.renewalReady s.parentCancelled s.now = true) : c.pollRenewal s ≠ (c, []) := by
  have hrenewal : ∀ {r : Context × List Event}, r.1.renewal ≠ c.renewal → r ≠ (c, []) :=
    fun hne hsame => hne (congrArg (·.1.renewal) hsame)
  have hevents : ∀ {r : Context × List Event}, r.2 ≠ [] → r ≠ (c, []) :=
    fun hne hsame => hne (congrArg (·.2) hsame)
  have hrenewing : ∀ {tick expiry : Nat} {call : Pending Unit},
      c.renewal = .renewing tick expiry call → c.done = true ∨ call.isSettled s.now = true →
      c.pollRenewing s tick expiry call ≠ (c, []) := by
    intro tick expiry call hcall hready
    unfold pollRenewing
    split
    · exact hevents (by simp)
    · rename_i hdone
      have hsettled := Pending.standing_of_settled (hready.resolve_left hdone)
      split
      · rename_i hwaiting
        exact absurd hwaiting hsettled
      · exact hevents (by simp)
      · exact hevents (by simp)
      · exact hevents (by simp)
  unfold renewalReady at h
  unfold pollRenewal
  cases hr : c.renewal with
  | waiting tick expiry =>
      rw [hr] at h
      simp only [Bool.or_eq_true] at h
      dsimp only
      split
      · exact hrenewal (by rw [hr]; simp)
      split
      · exact hrenewal (by rw [hr, renewal_tearDown]; simp)
      split
      · exact hrenewal (by rw [hr, renewal_tearDown]; simp)
      split
      · exact hevents (by simp)
      · rename_i hdone hparent hdropped hdue
        rcases h with ((hready | hready) | hready) | hready
        · exact absurd hready hdone
        · exact absurd hready hparent
        · exact absurd hready hdropped
        · exact absurd hready hdue
  | renewing tick expiry call =>
      rw [hr] at h
      exact hrenewing hr (by simpa using h)
  | tearingDown =>
      rw [hr] at h
      dsimp only at h ⊢
      rw [if_pos h]
      exact hrenewal (by rw [hr]; simp)
  | exited =>
      rw [hr] at h
      exact absurd h Bool.false_ne_true

/-- Something happens in a turn of the destruction task when it is ready. -/
theorem pollDestruction_ne {s : Surroundings} {c : Context}
    (h : c.destructionReady s.now = true) : c.pollDestruction s ≠ (c, []) := by
  have hevents : ∀ {r : Context × List Event}, r.2 ≠ [] → r ≠ (c, []) :=
    fun hne hsame => hne (congrArg (·.2) hsame)
  unfold destructionReady at h
  unfold pollDestruction
  cases hd : c.destruction with
  | idle => rw [hd] at h; exact absurd h Bool.false_ne_true
  | queued => exact hevents (by simp)
  | calling call =>
      rw [hd] at h
      have hsettled := Pending.standing_of_settled h
      dsimp only
      unfold pollDestroying
      split
      · rename_i hwaiting
        exact absurd hwaiting hsettled
      · exact hevents (by simp)
      · exact hevents (by simp)
      · exact hevents (by simp)
  | finished => rw [hd] at h; exact absurd h Bool.false_ne_true

end Context

/-! ## Turns of attempts -/

namespace Attempt

theorem load_start (session : Session) (agent parent now : Nat) :
    (Context.start session agent parent now).load now ≤ 7 := by
  simp only [Context.load, Context.start, Renewal.load, Destruction.load]
  omega

/-- A create call that is settled, or that is not wanted any more, decides the attempt. -/
theorem pollCreating_decides (a : Attempt) {parentCancelled : Bool} {now : Nat}
    {call : Pending String} (session : Session)
    (h : parentCancelled = true ∨ call.isSettled now = true) :
    (a.pollCreating parentCancelled now session call).1.stage ≠ .creating session call := by
  unfold pollCreating
  split
  · simp [refuse]
  · rename_i hparent
    have hsettled := Pending.standing_of_settled (h.resolve_left hparent)
    split
    · rename_i hwaiting
      exact absurd hwaiting hsettled
    · simp [setContext]
    · simp [createFailed, refuse]
    · simp [createFailed, refuse]

/-- A stage that is decided has fewer turns ahead than one that is not. -/
theorem load_turn {a : Attempt} {now : Nat} {stage : Stage} {events : List Event}
    (h : a.Turn now stage events) (hfresh : stage ≠ .fresh)
    (hcreating : ∀ session call, stage ≠ .creating session call)
    (hbegun : ∀ c, a.stage ≠ .begun c) : ({ a with stage := stage } : Attempt).load now ≤ 7 := by
  unfold load
  cases h with
  | stay =>
      cases hstage : a.stage with
      | fresh => exact absurd hstage hfresh
      | creating session call => exact absurd hstage (hcreating session call)
      | refused e => simp
      | brokenDown => simp
      | begun c => exact absurd hstage (hbegun c)
  | refused e _ => simp
  | brokenDown => simp
  | creating call _ _ => exact absurd rfl (hcreating _ call)
  | begun id _ _ => exact load_start _ _ _ now

/-- A turn of an attempt that is ready brings it on. -/
theorem load_poll {a : Attempt} {parentCancelled : Bool} {now : Nat}
    (h : a.isReady parentCancelled now = true) (number : Nat)
    (createAnswer : SessionConfig → Answer String) :
    (a.poll parentCancelled now number createAnswer).1.load now < a.load now := by
  unfold isReady at h
  unfold poll
  cases hstage : a.stage with
  | fresh =>
      have hload : a.load now = 9 := by unfold load; rw [hstage]
      rw [hload]
      dsimp only
      split
      · exact Nat.succ_pos _
      split
      · split <;> exact Nat.succ_pos _
      rename_i session hresolve
      split
      · exact Nat.succ_pos _
      · rename_i config _
        have hoffers : a.Offers session := by
          unfold Offers
          rw [hstage]
          exact hresolve
        obtain ⟨stage, events, hpoll, hnext⟩ := pollCreating_turn a hoffers false now
          (.issue number now (createAnswer config) session.effectiveLockDelay)
        rw [hpoll]
        rcases hnext with ⟨rfl, rfl⟩ | ⟨hfresh, hcreating, _, hturn⟩
        · exact Nat.lt_succ_self 8
        · have hle := load_turn hturn hfresh hcreating (by rw [hstage]; simp)
          exact Nat.lt_of_le_of_lt hle (by decide)
  | creating session call =>
      have hload : a.load now = 8 := by unfold load; rw [hstage]
      rw [hload]
      rw [hstage] at h
      have hoffers : a.Offers session := by
        unfold Offers
        rw [hstage]
      have hdecides := pollCreating_decides a session (Bool.or_eq_true _ _ ▸ h)
      obtain ⟨stage, events, hpoll, hnext⟩ :=
        pollCreating_turn a hoffers parentCancelled now call
      dsimp only
      rw [hpoll] at hdecides ⊢
      rcases hnext with ⟨rfl, rfl⟩ | ⟨hfresh, hcreating, _, hturn⟩
      · exact absurd rfl hdecides
      · have hle := load_turn hturn hfresh hcreating (by rw [hstage]; simp)
        exact Nat.lt_of_le_of_lt hle (by decide)
  | refused e => rw [hstage] at h; exact absurd h Bool.false_ne_true
  | brokenDown => rw [hstage] at h; exact absurd h Bool.false_ne_true
  | begun c => rw [hstage] at h; exact absurd h Bool.false_ne_true

end Attempt

/-! ## Turns of callers -/

/-- Work runs until it has to wait. -/
theorem Work.not_ready_of_run {now : Nat} {work rest : Work α} {steps : List WorkStep}
    (h : work.run now = (.inr rest, steps)) : rest.isReady now = false := by
  induction work generalizing steps with
  | yield v => exact absurd (congrArg Prod.fst h) (by simp [run])
  | step s next ih =>
      unfold run at h
      obtain ⟨hrest, -⟩ := Prod.mk.inj h
      have hrun : next.run now = (.inr rest, (next.run now).2) := Prod.ext hrest rfl
      exact ih hrun
  | sleep ms next ih =>
      unfold run at h
      split at h
      · exact ih h
      · rename_i hms
        obtain ⟨hrest, -⟩ := Prod.mk.inj h
        obtain rfl := Sum.inr.inj hrest
        simp only [isReady, decide_eq_false_iff_not]
        omega
  | asleep t next ih =>
      unfold run at h
      split at h
      · exact ih h
      · rename_i hlate
        obtain ⟨hrest, -⟩ := Prod.mk.inj h
        obtain rfl := Sum.inr.inj hrest
        simpa [isReady] using hlate
  | forever =>
      unfold run at h
      obtain ⟨hrest, -⟩ := Prod.mk.inj h
      obtain rfl := Sum.inr.inj hrest
      rfl

namespace Caller

theorem load_pollAwaitRenewal (k : Caller α) (now : Nat) (c : Context) :
    (k.pollAwaitRenewal c).1.load now ≤ 2 ∧
      (c.renewalExited = true → (k.pollAwaitRenewal c).1.load now < 2) := by
  unfold pollAwaitRenewal
  split
  · simp [load]
  · rename_i hwaits
    exact ⟨Nat.le_refl _, fun hexited => absurd hexited hwaits⟩

theorem load_pollAwaitDestroyed (k : Caller α) (now : Nat) (c : Context) (closing : Bool) :
    (k.pollAwaitDestroyed c closing).1.load now ≤ 3 ∧
      (c.destroyed = true → (k.pollAwaitDestroyed c closing).1.load now < 3) := by
  unfold pollAwaitDestroyed
  split
  · split
    · have hle := (load_pollAwaitRenewal k now c).1
      omega
    · simp [load]
  · rename_i hwaits
    exact ⟨Nat.le_refl _, fun hdestroyed => absurd hdestroyed hwaits⟩

/-- A turn of a caller that is ready brings it on. -/
theorem load_poll {k : Caller α} {now : Nat} {c : Context} (h : k.isReady now c = true) :
    (k.poll now c).1.load now < k.load now := by
  have hwork : ∀ (work rest : Work α) (steps : List WorkStep),
      work.run now = (.inr rest, steps) → rest.load now = 1 := by
    intro work rest steps hrun
    unfold Work.load
    rw [Work.not_ready_of_run hrun]
    rfl
  unfold isReady at h
  unfold poll
  cases hactivity : k.activity with
  | cancel =>
      have hle := (load_pollAwaitDestroyed k now (c.conclude .cancelled).1 false).1
      have hload : k.load now = 4 := by unfold load; rw [hactivity]
      exact hload ▸ Nat.lt_succ_of_le hle
  | close =>
      have hle := (load_pollAwaitDestroyed k now (c.conclude .cancelled).1 true).1
      have hload : k.load now = 4 := by unfold load; rw [hactivity]
      exact hload ▸ Nat.lt_succ_of_le hle
  | awaitDestroyed closing =>
      rw [hactivity] at h
      have hload : k.load now = 3 := by unfold load; rw [hactivity]
      exact hload ▸ (load_pollAwaitDestroyed k now c closing).2 h
  | awaitRenewal =>
      rw [hactivity] at h
      have hload : k.load now = 2 := by unfold load; rw [hactivity]
      exact hload ▸ (load_pollAwaitRenewal k now c).2 h
  | awaitEnd =>
      rw [hactivity] at h
      have hload : k.load now = 1 := by unfold load; rw [hactivity]
      dsimp only at h ⊢
      rw [if_pos h, hload]
      exact Nat.one_pos
  | scope work =>
      rw [hactivity] at h
      have hload : k.load now = work.load now := by unfold load; rw [hactivity]
      have hpos : 0 < work.load now := by unfold Work.load; split <;> simp
      rw [hload]
      dsimp only at h ⊢
      split
      · exact hpos
      · rename_i hdone
        have hready : work.isReady now = true := by simpa [hdone] using h
        have htwo : work.load now = 2 := by unfold Work.load; rw [if_pos hready]
        split
        · exact hpos
        · rename_i rest steps hrun
          show rest.load now < work.load now
          rw [hwork work rest steps hrun, htwo]
          decide
  | perform work =>
      rw [hactivity] at h
      have hload : k.load now = work.load now := by unfold load; rw [hactivity]
      have htwo : work.load now = 2 := by unfold Work.load; rw [if_pos h]
      rw [hload, htwo]
      dsimp only
      split
      · exact Nat.succ_pos _
      · rename_i rest steps hrun
        show rest.load now < 2
        rw [hwork work rest steps hrun]
        decide
  | returned o => rw [hactivity] at h; exact absurd h Bool.false_ne_true
  | abandoned => rw [hactivity] at h; exact absurd h Bool.false_ne_true

end Caller

/-! ## Waking -/

theorem Attempt.ready_of_wake {a : Attempt} {now t : Nat} {parentCancelled : Bool}
    (h : a.wake = some t) (ht : t ≤ now) : a.isReady parentCancelled now = true := by
  unfold wake at h
  unfold isReady
  cases hstage : a.stage with
  | creating session call =>
      rw [hstage] at h
      obtain rfl := Option.some.inj h
      simp [Pending.settled_of_wake ht]
  | _ => simp [hstage] at h

theorem Context.renewalReady_of_wake {c : Context} {now t : Nat} {parentCancelled : Bool}
    (h : c.renewalWake = some t) (ht : t ≤ now) : c.renewalReady parentCancelled now = true := by
  unfold renewalWake at h
  unfold renewalReady
  cases hrenewal : c.renewal with
  | waiting tick expiry =>
      rw [hrenewal] at h
      obtain rfl := Option.some.inj h
      simp [isDue_of_wakeAt_le ht]
  | renewing tick expiry call =>
      rw [hrenewal] at h
      obtain rfl := Option.some.inj h
      simp [Pending.settled_of_wake ht]
  | _ => simp [hrenewal] at h

theorem Context.destructionReady_of_wake {c : Context} {now t : Nat}
    (h : c.destructionWake = some t) (ht : t ≤ now) : c.destructionReady now = true := by
  unfold destructionWake at h
  unfold destructionReady
  cases hdestruction : c.destruction with
  | calling call =>
      rw [hdestruction] at h
      obtain rfl := Option.some.inj h
      exact Pending.settled_of_wake ht
  | _ => simp [hdestruction] at h

theorem Work.ready_of_wake {work : Work α} {now t : Nat} (h : work.wake = some t)
    (ht : t ≤ now) : work.isReady now = true := by
  cases work with
  | asleep moment next =>
      obtain rfl := Option.some.inj h
      simpa [isReady] using ht
  | _ => exact absurd h (by simp [wake])

theorem Caller.ready_of_wake {k : Caller α} {now t : Nat} {c : Context}
    (h : k.wake = some t) (ht : t ≤ now) : k.isReady now c = true := by
  unfold wake at h
  unfold isReady
  cases hactivity : k.activity with
  | scope work =>
      rw [hactivity] at h
      simp [Work.ready_of_wake h ht]
  | perform work =>
      rw [hactivity] at h
      exact Work.ready_of_wake h ht
  | _ => simp [hactivity] at h

/-! ## Turns of a world -/

/-- A session that has been resolved has a TTL, and a third of it is not zero. -/
theorem ttl_of_resolve {requested session : Session} (h : requested.resolve = .ok session) :
    ∃ ttl, session.effectiveTtl? = some ttl ∧ 0 < (ttl.divide 3).nanos := by
  obtain ⟨ttl, httl, hperiod, -⟩ := Session.resolve_eq_ok h
  refine ⟨ttl, (Session.effectiveTtl?_of_resolve h).trans httl, Nat.pos_of_ne_zero ?_⟩
  exact beq_eq_false_iff_ne.mp hperiod

/-- A session that has been resolved has a period. -/
theorem period_of_resolve {requested session : Session} (h : requested.resolve = .ok session)
    {c : Context} (hc : c.session = { session with id := c.session.id }) :
    0 < c.period.nanos := by
  obtain ⟨ttl, hresolved, hperiod⟩ := ttl_of_resolve h
  have httl : c.ttl = ttl := by
    unfold Context.ttl
    rw [hc]
    show session.effectiveTtl?.getD .zero = ttl
    rw [hresolved]
    rfl
  unfold Context.period
  rw [httl]
  exact hperiod

namespace World

theorem Reachable.steady {w : World α} (hw : w.Reachable) {i : Nat} {c : Context}
    (hc : w.context? i = some c) : c.Steady := by
  have hg := hw.grounded
  refine ⟨hg.signalled i c hc, ?_, fun hlive =>
    ((Context.teardown_invariant.holds hw hc).live hlive).destruction⟩
  obtain ⟨a, ha, hstage⟩ := context?_eq_some_iff.mp hc
  have hresolved := hg.resolved i a ha
  unfold Attempt.Resolved at hresolved
  rw [hstage] at hresolved
  obtain ⟨session, hresolve, hsession, _⟩ := hresolved
  exact period_of_resolve hresolve hsession

/-- Putting a context back that has fewer turns ahead. -/
theorem load_setContext (w : World α) {i : Nat} {c : Context} (hc : w.context? i = some c)
    (c' : Context) :
    ((w.setContext i c').attempts.map (·.load w.now)).sum + c.load w.now =
      (w.attempts.map (·.load w.now)).sum + c'.load w.now := by
  obtain ⟨a, ha, hstage⟩ := context?_eq_some_iff.mp hc
  have hset : (w.setContext i c').attempts = w.attempts.set i (a.setContext c') := by
    unfold setContext
    rw [List.modify_eq_set_getElem?, ha]
    rfl
  have hload : a.load w.now = c.load w.now := by unfold Attempt.load; rw [hstage]
  rw [hset, ← hload]
  exact sum_map_set (·.load w.now) ha (a.setContext c')

/-- A turn of a task that lowers the load of its context lowers the load of the world. -/
theorem load_pollContext {w : World α} (hw : w.Reachable) {i : Nat} {c : Context}
    (hc : w.context? i = some c) {turn : Surroundings → Context → Context × List Event}
    (hlower : ∀ agent, (turn (w.surroundings agent c) c).1.load w.now < c.load w.now) :
    (w.pollContext i turn).now = w.now ∧ (w.pollContext i turn).load < w.load := by
  obtain ⟨_, agent, hagent⟩ := hw.grounded.context_agent hc
  have hsum := load_setContext w hc (turn (w.surroundings agent c) c).1
  have hlt := hlower agent
  unfold pollContext
  rw [hc]
  dsimp only
  rw [hagent]
  refine ⟨rfl, ?_⟩
  show ((w.setContext i _).attempts.map (·.load w.now)).sum +
    (w.callers.map (·.load w.now)).sum < w.load
  unfold load
  omega

theorem load_pollAttempt {w : World α} (hw : w.Reachable) {i : Nat} {a : Attempt}
    (ha : w.attempts[i]? = some a)
    (hready : a.isReady (w.scopes.isCancelled a.parent) w.now = true) :
    (w.pollAttempt i).now = w.now ∧ (w.pollAttempt i).load < w.load := by
  obtain ⟨agent, hagent⟩ : ∃ agent, w.agents[a.agent]? = some agent :=
    ⟨_, List.getElem?_eq_getElem (hw.grounded.served i a ha)⟩
  have hsum := sum_map_set (·.load w.now) ha (w.openingTurn a agent).1
  have hlt : (w.openingTurn a agent).1.load w.now < a.load w.now :=
    Attempt.load_poll hready _ _
  unfold pollAttempt
  rw [ha]
  dsimp only
  rw [hagent]
  refine ⟨rfl, ?_⟩
  show ((w.attempts.set i (w.openingTurn a agent).1).map (·.load w.now)).sum +
    (w.callers.map (·.load w.now)).sum < w.load
  unfold load
  omega

/-- A turn of a caller brings the caller on, and leaves its context no more turns to take. -/
theorem load_pollCaller {w : World α} (hw : w.Reachable) {j : Nat} {k : Caller α}
    (hk : w.callers[j]? = some k) {c : Context} (hc : w.context? k.attempt = some c)
    (hready : k.isReady w.now c = true) :
    (w.pollCaller j).now = w.now ∧ (w.pollCaller j).load < w.load := by
  obtain ⟨_, agent, _⟩ := hw.grounded.context_agent hc
  have hmoves := Caller.poll_moves (w.surroundings agent c) k w.now c id
  have hle : (k.poll w.now c).2.1.load w.now ≤ c.load w.now := hmoves.load_le (hw.steady hc)
  have hlt : (k.poll w.now c).1.load w.now < k.load w.now := Caller.load_poll hready
  have hcontexts := load_setContext w hc (k.poll w.now c).2.1
  have hcallers := sum_map_set (·.load w.now) hk (k.poll w.now c).1
  unfold pollCaller
  rw [hk]
  dsimp only
  rw [hc]
  refine ⟨rfl, ?_⟩
  show ((w.setContext k.attempt (k.poll w.now c).2.1).attempts.map (·.load w.now)).sum +
    ((w.callers.set j (k.poll w.now c).1).map (·.load w.now)).sum < w.load
  unfold load
  omega

/-- **Every turn counts.** A turn of a process that is ready leaves fewer turns to take,
and no time passes. -/
theorem load_poll {w : World α} (hw : w.Reachable) {p : Process} (h : w.isReady p = true) :
    (w.poll p).now = w.now ∧ (w.poll p).load < w.load := by
  have hg := hw.grounded
  cases p with
  | opening i =>
      obtain ⟨a, ha, hready⟩ := (Option.any_eq_true ..).mp h
      exact load_pollAttempt hw ha hready
  | renewal i =>
      obtain ⟨c, hc, hready⟩ := (Option.any_eq_true ..).mp h
      exact load_pollContext hw hc fun agent =>
        (Context.pollRenewal_moves (hg.signalled i c hc)).load_lt (hw.steady hc) rfl
          (Context.pollRenewal_ne hready)
  | destruction i =>
      obtain ⟨c, hc, hready⟩ := (Option.any_eq_true ..).mp h
      exact load_pollContext hw hc fun agent =>
        (Context.pollDestruction_moves _ c).load_lt (hw.steady hc) rfl
          (Context.pollDestruction_ne hready)
  | caller j =>
      obtain ⟨k, hk, hwaits⟩ := (Option.any_eq_true ..).mp h
      obtain ⟨c, hc, hready⟩ := (Option.any_eq_true ..).mp hwaits
      exact load_pollCaller hw hk hc hready

/-! ## Time goes on -/

/-- A process is ready at the moment that it waits for. -/
theorem Reachable.ready_of_wake {w : World α} (hw : w.Reachable) {p : Process} {t : Nat}
    (h : w.wake p = some t) (ht : t ≤ w.now) : w.isReady p = true := by
  cases p with
  | opening i =>
      obtain ⟨a, ha, hwake⟩ := Option.bind_eq_some_iff.mp h
      exact (Option.any_eq_true ..).mpr ⟨a, ha, Attempt.ready_of_wake hwake ht⟩
  | renewal i =>
      obtain ⟨c, hc, hwake⟩ := Option.bind_eq_some_iff.mp h
      exact (Option.any_eq_true ..).mpr ⟨c, hc, Context.renewalReady_of_wake hwake ht⟩
  | destruction i =>
      obtain ⟨c, hc, hwake⟩ := Option.bind_eq_some_iff.mp h
      exact (Option.any_eq_true ..).mpr ⟨c, hc, Context.destructionReady_of_wake hwake ht⟩
  | caller j =>
      obtain ⟨k, hk, hwake⟩ := Option.bind_eq_some_iff.mp h
      obtain ⟨c, hc⟩ := hw.caller_context hk
      exact (Option.any_eq_true ..).mpr
        ⟨k, hk, (Option.any_eq_true ..).mpr ⟨c, hc, Caller.ready_of_wake hwake ht⟩⟩

theorem now_le_step (w : World α) (a : Action α) : w.now ≤ (w.step a).now := by
  cases step_change w a with
  | none _ hnow _ _ => exact Nat.le_of_eq hnow.symm
  | passed t hw' _ hlater _ => rw [hw']; exact Nat.le_of_lt hlater
  | made _ hnow _ _ _ _ _ => exact Nat.le_of_eq hnow.symm
  | opening _ hnow _ _ _ _ _ _ _ => exact Nat.le_of_eq hnow.symm
  | context _ hnow _ _ _ _ _ _ _ _ => exact Nat.le_of_eq hnow.symm

/-- A step in which the clock moves is time passing, with no process ready. -/
theorem passed_of_later {w : World α} {a : Action α} (h : w.now < (w.step a).now) :
    ∃ t, w.step a = { w with now := t } ∧ w.isQuiet = true := by
  cases step_change w a with
  | passed t hw' hquiet _ _ => exact ⟨t, hw', hquiet⟩
  | none _ hnow _ _ => omega
  | made _ hnow _ _ _ _ _ => omega
  | opening _ hnow _ _ _ _ _ _ _ => omega
  | context _ hnow _ _ _ _ _ _ _ _ => omega

theorem quiet_of_later {w : World α} {a : Action α} (h : w.now < (w.step a).now) :
    w.isQuiet = true := by
  obtain ⟨_, _, hquiet⟩ := passed_of_later h
  exact hquiet

/-- Nothing in the journal is later than the present time. -/
theorem Reachable.journal_le {w : World α} (hw : w.Reachable) :
    ∀ e ∈ w.journal, e.time ≤ w.now := by
  induction hw with
  | start agents scopes now =>
      intro e he
      exact absurd he List.not_mem_nil
  | @step w a _ ih =>
      intro e he
      obtain ⟨j, events, hjournal, _⟩ := step_journal w a
      have hnow := now_le_step w a
      rw [hjournal] at he
      rcases List.mem_append.mp he with hold | hnew
      · exact Nat.le_trans (ih e hold) hnow
      · obtain ⟨x, _, rfl⟩ := List.mem_map.mp hnew
        exact hnow

theorem Reachable.log_le {w : World α} (hw : w.Reachable) {i : Nat} :
    ∀ x ∈ w.log i, x.1 ≤ w.now := by
  intro x hx
  obtain ⟨e, he, rfl⟩ := List.mem_map.mp hx
  exact hw.journal_le e (List.mem_of_mem_filter he)

/-- When no process has anything to do, the clock can move on by one. -/
theorem Reachable.tick {w : World α} (hw : w.Reachable) (hquiet : w.isQuiet = true) :
    (w.step (.advance (w.now + 1))).now = w.now + 1 := by
  have hwakes : ∀ t ∈ w.wakes, w.now + 1 ≤ t := by
    intro t ht
    obtain ⟨p, hp, hwake⟩ := List.mem_filterMap.mp ht
    -- a process that waits for an earlier moment would be ready now
    by_contra hearly
    have hready := hw.ready_of_wake hwake (by omega)
    exact absurd (hready.symm.trans (not_ready_of_quiet hquiet hp)) (by simp)
  show (w.advance (w.now + 1)).now = w.now + 1
  unfold advance
  rw [if_pos]
  simp only [Bool.and_eq_true, decide_eq_true_eq, List.all_eq_true]
  exact ⟨⟨hquiet, Nat.lt_succ_self _⟩, hwakes⟩

/-- What a world does by itself: a process that is ready takes a turn, and time passes when
there is none. -/
def next (w : World α) : Action α :=
  match w.processes.find? w.isReady with
  | some p => .poll p
  | none => .advance (w.now + 1)

theorem next_of_quiet {w : World α} (hquiet : w.isQuiet = true) :
    w.next = .advance (w.now + 1) := by
  have hnone : w.processes.find? w.isReady = none := by
    refine List.find?_eq_none.mpr fun p hp => ?_
    rw [not_ready_of_quiet hquiet hp]
    exact Bool.false_ne_true
  unfold next
  rw [hnone]

theorem next_of_not_quiet {w : World α} (h : w.isQuiet ≠ true) :
    ∃ p, w.next = .poll p ∧ w.isReady p = true := by
  unfold next
  cases hfound : w.processes.find? w.isReady with
  | some p => exact ⟨p, rfl, List.find?_some hfound⟩
  | none =>
      refine absurd (List.all_eq_true.mpr fun p hp => ?_) h
      simpa using List.find?_eq_none.mp hfound p hp

/-- A world left to itself, after `n` steps. -/
def drift (w : World α) : Nat → World α
  | 0 => w
  | n + 1 => (w.step w.next).drift n

theorem drift_succ (w : World α) (n : Nat) :
    w.drift (n + 1) = (w.drift n).step (w.drift n).next := by
  induction n generalizing w with
  | zero => rfl
  | succ n ih => exact ih (w.step w.next)

theorem drift_add (w : World α) (m n : Nat) : w.drift (m + n) = (w.drift m).drift n := by
  induction m generalizing w with
  | zero => rw [Nat.zero_add]; rfl
  | succ m ih =>
      rw [Nat.succ_add]
      exact ih (w.step w.next)

theorem Reachable.drift {w : World α} (hw : w.Reachable) (n : Nat) :
    (w.drift n).Reachable := by
  induction n generalizing w with
  | zero => exact hw
  | succ n ih => exact ih (hw.step w.next)

/-- A turn makes no attempts and cancels no scopes. -/
theorem poll_frame (w : World α) (p : Process) :
    (w.poll p).attempts.length = w.attempts.length ∧ (w.poll p).scopes = w.scopes := by
  have hcontext : ∀ (i : Nat) (turn : Surroundings → Context → Context × List Event),
      (w.pollContext i turn).attempts.length = w.attempts.length ∧
        (w.pollContext i turn).scopes = w.scopes := by
    intro i turn
    unfold pollContext
    split
    · exact ⟨rfl, rfl⟩
    · split
      · exact ⟨rfl, rfl⟩
      · exact ⟨List.length_modify .., rfl⟩
  cases p with
  | opening i =>
      show (w.pollAttempt i).attempts.length = _ ∧ (w.pollAttempt i).scopes = _
      unfold pollAttempt
      split
      · exact ⟨rfl, rfl⟩
      · split
        · exact ⟨rfl, rfl⟩
        · exact ⟨List.length_set .., rfl⟩
  | renewal i => exact hcontext i _
  | destruction i => exact hcontext i _
  | caller j =>
      show (w.pollCaller j).attempts.length = _ ∧ (w.pollCaller j).scopes = _
      unfold pollCaller
      split
      · exact ⟨rfl, rfl⟩
      · split
        · exact ⟨rfl, rfl⟩
        · exact ⟨List.length_modify .., rfl⟩

theorem next_frame (w : World α) :
    (w.step w.next).attempts.length = w.attempts.length ∧ (w.step w.next).scopes = w.scopes := by
  unfold next
  split
  · exact w.poll_frame _
  · show (w.advance _).attempts.length = _ ∧ (w.advance _).scopes = _
    unfold advance
    split <;> exact ⟨rfl, rfl⟩

/-- A world left to itself makes no attempts and cancels no scopes. -/
theorem drift_frame (w : World α) (n : Nat) :
    (w.drift n).attempts.length = w.attempts.length ∧ (w.drift n).scopes = w.scopes := by
  induction n generalizing w with
  | zero => exact ⟨rfl, rfl⟩
  | succ n ih =>
      have hlater := ih (w.step w.next)
      have hfirst := w.next_frame
      exact ⟨hlater.1.trans hfirst.1, hlater.2.trans hfirst.2⟩

/-- **The processes come to rest,** and no time passes until they do. -/
theorem Reachable.settle {w : World α} (hw : w.Reachable) :
    ∃ n, (w.drift n).now = w.now ∧ (w.drift n).isQuiet = true := by
  induction hload : w.load using Nat.strongRecOn generalizing w with
  | ind l ih =>
      by_cases hquiet : w.isQuiet = true
      · exact ⟨0, rfl, hquiet⟩
      · obtain ⟨p, hnext, hready⟩ := next_of_not_quiet hquiet
        obtain ⟨hnow, hlt⟩ := load_poll hw hready
        obtain ⟨n, hrest, hquiet⟩ := ih (w.poll p).load (hload ▸ hlt) (hw.step (.poll p)) rfl
        refine ⟨n + 1, ?_, ?_⟩
        · show ((w.step w.next).drift n).now = w.now
          rw [hnext]
          exact hrest.trans hnow
        · show ((w.step w.next).drift n).isQuiet = true
          rw [hnext]
          exact hquiet

/-- **Time goes on.** Left to itself, a reachable world reaches any reading of the clock. -/
theorem Reachable.progress {w : World α} (hw : w.Reachable) (moment : Nat) :
    ∃ n, moment ≤ (w.drift n).now := by
  induction hleft : moment - w.now generalizing w with
  | zero => exact ⟨0, Nat.le_of_sub_eq_zero hleft⟩
  | succ l ih =>
      obtain ⟨m, hnow, hquiet⟩ := hw.settle
      have hsettled := hw.drift m
      have htick := hsettled.tick hquiet
      rw [← next_of_quiet hquiet] at htick
      obtain ⟨n, hreached⟩ := ih (hsettled.step (w.drift m).next) (by omega)
      exact ⟨m + (n + 1), by rwa [drift_add]⟩

end World

/-! ## Endless runs -/

/-- An endless run: each world comes from the one before by one action, and time goes on
without end. -/
structure Course (start : World α) where
  world : Nat → World α
  action : Nat → Action α
  begins : world 0 = start
  follows : ∀ n, world (n + 1) = (world n).step (action n)
  unending : ∀ moment, ∃ n, moment ≤ (world n).now

namespace Course

variable {start : World α}

/-- The first `n` actions. -/
def actions (course : Course start) (n : Nat) : List (Action α) :=
  (List.range n).map course.action

theorem world_eq_run (course : Course start) (n : Nat) :
    course.world n = start.run (course.actions n) := by
  induction n with
  | zero => exact course.begins
  | succ n ih =>
      unfold actions at ih ⊢
      rw [course.follows, ih, List.range_succ, List.map_append]
      exact (World.run_concat ..).symm

/-- What is never done is not among the first actions. -/
theorem not_mem_actions (course : Course start) {a : Action α} (h : ∀ n, course.action n ≠ a)
    (n : Nat) : a ∉ course.actions n := by
  intro hmem
  obtain ⟨m, _, hm⟩ := List.mem_map.mp hmem
  exact h m hm

/-- What comes after `n` steps. -/
theorem world_add (course : Course start) (n m : Nat) :
    ∃ more, course.world (n + m) = (course.world n).run more := by
  induction m with
  | zero => exact ⟨[], rfl⟩
  | succ m ih =>
      obtain ⟨more, hmore⟩ := ih
      refine ⟨more ++ [course.action (n + m)], ?_⟩
      rw [World.run_concat, ← hmore]
      exact course.follows (n + m)

theorem reachable (course : Course start) (hstart : start.Reachable) (n : Nat) :
    (course.world n).Reachable := by
  rw [course.world_eq_run]
  exact hstart.run _

theorem agents_eq (course : Course start) (n : Nat) :
    (course.world n).agents = start.agents := by
  induction n with
  | zero => rw [course.begins]
  | succ n ih => rw [course.follows, World.step_agents, ih]

/-- The clock does not go back. -/
theorem now_le (course : Course start) (n m : Nat) :
    (course.world n).now ≤ (course.world (n + m)).now := by
  induction m with
  | zero => exact Nat.le_refl _
  | succ m ih =>
      refine Nat.le_trans ih ?_
      rw [Nat.add_succ, course.follows]
      exact World.now_le_step _ _

theorem later (course : Course start) (n moment : Nat) :
    ∃ m, moment ≤ (course.world (n + m)).now := by
  obtain ⟨k, hk⟩ := course.unending moment
  refine ⟨k, Nat.le_trans hk ?_⟩
  rw [Nat.add_comm]
  exact course.now_le k n

/-- What is so whenever the clock is past a limit, and does not come with the passing of
time alone, has come before the clock passes the limit. -/
theorem exists_by (course : Course start) {limit : Nat} (hstart : start.now ≤ limit)
    {P : World α → Prop} (hlate : ∀ n, limit < (course.world n).now → P (course.world n))
    (hpass : ∀ w t, P { w with now := t } → P w) :
    ∃ n, (course.world n).now ≤ limit ∧ P (course.world n) := by
  have hpast := course.unending (limit + 1)
  have hfirst := Nat.find_spec hpast
  cases hfound : Nat.find hpast with
  | zero =>
      rw [hfound, course.begins] at hfirst
      omega
  | succ n =>
      have hbefore := Nat.find_min hpast (show n < Nat.find hpast by omega)
      rw [hfound] at hfirst
      have hthen := hlate (n + 1) hfirst
      rw [course.follows] at hfirst hthen
      have hmoves : (course.world n).now < ((course.world n).step (course.action n)).now := by omega
      -- the clock moves in this step, so nothing else does
      obtain ⟨t, hpassed, _⟩ := World.passed_of_later hmoves
      rw [hpassed] at hthen
      exact ⟨n, by omega, hpass _ _ hthen⟩

/-- A world left to itself takes a course. -/
def drift {w : World α} (hw : w.Reachable) : Course w where
  world := w.drift
  action n := (w.drift n).next
  begins := rfl
  follows := w.drift_succ
  unending := hw.progress

/-- A course with one more action before it. -/
def after (a : Action α) (course : Course (start.step a)) : Course start where
  world
    | 0 => start
    | n + 1 => course.world n
  action
    | 0 => a
    | n + 1 => course.action n
  begins := rfl
  follows
    | 0 => course.begins
    | n + 1 => course.follows n
  unending moment := by
    obtain ⟨n, hn⟩ := course.unending moment
    exact ⟨n + 1, hn⟩

end Course

end Tenure.Lifecycle
