import Tenure.Holder.Run
import Tenure.Proofs.Lifecycle.Cancelling

/-!
# What the program leaves behind

Most ways out of the program lead through closing the session, and closing waits for the
destroy attempt, so the session is gone when the program exits. Two ways out do not. An
interruption that is not listened for kills the program wherever it stands. And where the
lock request fails, or the session is lost while it is in flight, the program drops the
context and exits, without waiting for the task that would notice.

* `Standing` — what the stage of the program says about the session;
* `Sound` — the invariant; `Sound.step` is what one move keeps and `Sound.run` a whole run;
* `Turned`, `killed_run_iff` — what a turn can make of the program, and which interruptions
  kill it;
* `exits_closed` — the session has been destroyed at every exit but those two, and what is
  left of it at those;
* `Sound.deserts` — whenever the lock request fails while the session is live, the program
  exits with the session still begun.
-/

namespace Tenure.Holder

open Lifecycle

variable {h : Holder} {c : Context}

/-! ## Failed lock requests -/

/-- Whether the outcome is that of a lock request that got no answer that can be used: the
request failed, or the session was lost before. -/
def isFailure : Outcome LockAnswer → Bool
  | .value (.error _) => true
  | .lost _ => true
  | _ => false

/-- Whether there was a lock to take, and the request for it failed. The first caller of a
program that takes a lock is the one that requests it. -/
def lockFailed (h : Holder) : Bool := h.lockKey.isSome && (h.outcome? 0).any isFailure

theorem lockFailed_of_outcome (hkey : h.lockKey.isSome = true) {o : Outcome LockAnswer}
    (ho : h.outcome? 0 = some o) (hfailure : isFailure o = true) : h.lockFailed = true := by
  unfold lockFailed
  rw [hkey, ho]
  exact hfailure

/-- What a caller has got, it keeps. -/
theorem outcome?_act (hw : h.world.Reachable) {caller : Nat} {o : Outcome LockAnswer}
    (ho : h.outcome? caller = some o) (a : Action LockAnswer) :
    (h.act a).outcome? caller = some o := by
  obtain ⟨k, hk, hout⟩ := Option.bind_eq_some_iff.mp ho
  have hover : k.isOver = true := by
    unfold Caller.outcome? at hout
    unfold Caller.isOver
    cases hactivity : k.activity <;> rw [hactivity] at hout <;>
      first | rfl | exact absurd hout (by simp)
  exact Option.bind_eq_some_iff.mpr ⟨k, hw.rests hk hover a, hout⟩

theorem lockFailed_act (hw : h.world.Reachable) (hfailed : h.lockFailed = true)
    (a : Action LockAnswer) : (h.act a).lockFailed = true := by
  obtain ⟨hkey, hrequest⟩ := Bool.and_eq_true_iff.mp hfailed
  obtain ⟨o, ho, hfailure⟩ := (Option.any_eq_true _ _).mp hrequest
  exact lockFailed_of_outcome (h := h.act a) hkey (outcome?_act hw ho a) hfailure

/-! ## The invariant -/

/-- What the stage of the program says about the session. -/
inductive Standing (h : Holder) : Stage → Prop
  | opening (hcallers : h.world.callers = []) : Standing h .opening
  | acquiring {c : Context} (key : String) (hkey : h.lockKey = some key)
      (hc : h.world.context? 0 = some c) : Standing h (.acquiring key 0)
  | holding {c : Context} (caller : Nat) (hc : h.world.context? 0 = some c) :
      Standing h (.holding caller)
  | releasing {c : Context} (caller : Nat) (interrupted : Bool)
      (hc : h.world.context? 0 = some c) : Standing h (.releasing caller interrupted)
  | closing {caller since : Nat} (cause : Closing) {k : Caller LockAnswer} {c : Context}
      (hstopped : h.world.Stopped 0 caller since true k c) : Standing h (.closing caller cause)
  | leaving (failure : Failure) (hfailed : h.lockFailed = true) : Standing h (.leaving failure)
  | exited (v : Verdict) (hgone : h.lockFailed = false →
      ∀ c, h.world.context? 0 = some c → c.destroyed = true) : Standing h (.exited v)
  | killed : Standing h .killed

/-- The state of the program hangs together. -/
structure Sound (h : Holder) : Prop where
  reachable : h.world.Reachable
  standing : h.Standing h.stage

theorem reachable_act (hw : h.world.Reachable) (a : Action LockAnswer) :
    (h.act a).world.Reachable := hw.step a

theorem reachable_ask (hw : h.world.Reachable) (demand : Demand LockAnswer)
    (stage : Nat → Stage) : (h.ask demand stage).world.Reachable := hw.step (.call 0 demand)

/-- A context stays where it is. -/
theorem context_act (hc : h.world.context? 0 = some c) (a : Action LockAnswer) :
    ∃ c', (h.act a).world.context? 0 = some c' := by
  obtain ⟨c', _, hc', _⟩ := World.step_effect hc a
  exact ⟨c', hc'⟩

/-- What goes on beside the program. -/
theorem Sound.act (hs : h.Sound) (hover : h.isOver = false) {a : Action LockAnswer}
    (ha : ∀ i demand, a ≠ .call i demand) : (h.act a).Sound := by
  obtain ⟨hw, hstands⟩ := hs
  refine ⟨hw.step a, ?_⟩
  show (h.act a).Standing h.stage
  unfold isOver at hover
  generalize h.stage = stage at hstands hover ⊢
  cases hstands with
  | opening hcallers => exact .opening (World.callers_eq_nil_of_step hcallers ha)
  | acquiring key hkey hc => exact .acquiring key hkey (context_act hc a).choose_spec
  | holding caller hc => exact .holding caller (context_act hc a).choose_spec
  | releasing caller interrupted hc =>
      exact .releasing caller interrupted (context_act hc a).choose_spec
  | closing cause hstopped =>
      obtain ⟨k, c, hstopped'⟩ := hstopped.step hw a
      exact .closing cause hstopped'
  | leaving failure hfailed => exact .leaving failure (lockFailed_act hw hfailed a)
  | exited v _ => exact absurd hover (by simp)
  | killed => exact absurd hover (by simp)

/-! ## Turns of the program -/

theorem context_ask (hc : h.world.context? 0 = some c) (demand : Demand LockAnswer)
    (stage : Nat → Stage) : (h.ask demand stage).world.context? 0 = some c := by
  show (h.world.step (.call 0 demand)).context? 0 = some c
  rw [World.step_call hc]
  exact hc

theorem sound_close (hw : h.world.Reachable) (hc : h.world.context? 0 = some c)
    (cause : Closing) : (h.close cause).Sound :=
  ⟨reachable_ask hw _ _, .closing cause (World.stopped_call h.world hc true)⟩

/-- To let go is to close the session, or to ask for the release of the lock first. -/
theorem letGo_cases (h : Holder) (interrupted : Bool) :
    (∃ cause, h.letGo interrupted = h.close cause) ∨
      ∃ work, h.letGo interrupted = h.ask (.perform work) (.releasing · interrupted) := by
  unfold letGo
  cases h.lockKey with
  | none => exact .inl ⟨_, rfl⟩
  | some key =>
      cases h.world.context? 0 with
      | none => exact .inl ⟨_, rfl⟩
      | some c =>
          dsimp only
          by_cases hdone : c.done = true
          · rw [if_pos hdone]
            exact .inl ⟨_, rfl⟩
          · rw [if_neg hdone]
            exact .inr ⟨_, rfl⟩

theorem sound_letGo (hw : h.world.Reachable) (hc : h.world.context? 0 = some c)
    (interrupted : Bool) : (h.letGo interrupted).Sound := by
  rcases h.letGo_cases interrupted with ⟨cause, hcloses⟩ | ⟨work, hasks⟩
  · rw [hcloses]
    exact sound_close hw hc cause
  · rw [hasks]
    exact ⟨reachable_ask hw _ _, .releasing _ _ (context_ask hc _ _)⟩

theorem sound_hold (hw : h.world.Reachable) (hc : h.world.context? 0 = some c)
    (endFirst : Bool) : (h.hold endFirst).Sound := by
  unfold hold
  dsimp only
  split
  · exact sound_letGo (h := { h.note _ with listening := !endFirst }) hw hc false
  · exact ⟨hw.step (.call 0 .awaitEnd), .holding _
      (context_ask (h := { h.note _ with listening := true }) hc _ _)⟩

/-- Who leaves without closing does so since the lock request failed. -/
theorem sound_desert (hw : h.world.Reachable) {key : String} (hkey : h.lockKey = some key)
    {o : Outcome LockAnswer} (ho : h.outcome? 0 = some o) (hfailure : isFailure o = true)
    (failure : Failure) : (h.desert failure).Sound := by
  have hfailed : h.lockFailed = true :=
    lockFailed_of_outcome (by rw [hkey]; rfl) ho hfailure
  exact ⟨hw.step (.drop 0), .leaving failure (lockFailed_act hw hfailed (.drop 0))⟩

theorem sound_turn_opening (hs : h.Sound) (hstage : h.stage = .opening) (endFirst : Bool) :
    (h.turn endFirst).Sound := by
  have hw := hs.reachable
  have hstands := hs.standing
  unfold turn
  rw [hstage] at hstands ⊢
  cases hstands with
  | opening hcallers =>
      dsimp only
      split
      · rename_i c hbegun
        obtain ⟨b, hb, hbegun⟩ := Option.map_eq_some_iff.mp hbegun
        have hc := World.context?_eq_some_iff.mpr ⟨b, hb, hbegun⟩
        split
        · rename_i key hkey
          -- nobody has asked anything yet, so the request is made by the first caller
          refine ⟨reachable_ask hw _ _, ?_⟩
          show Standing _ (.acquiring key h.world.callers.length)
          rw [hcallers]
          exact .acquiring key hkey (context_ask hc _ _)
        · exact sound_hold hw hc endFirst
      · rename_i e hrefused
        obtain ⟨b, hb, hrefused⟩ := Option.map_eq_some_iff.mp hrefused
        refine ⟨hw, .exited _ fun _ c hc => ?_⟩
        obtain ⟨b', hb', hbegun⟩ := World.context?_eq_some_iff.mp hc
        obtain rfl := Option.some.inj (hb.symm.trans hb')
        exact absurd (hrefused.symm.trans hbegun) (by simp)
      · exact hs

theorem sound_turn_acquiring (hs : h.Sound) {key : String} {caller : Nat}
    (hstage : h.stage = .acquiring key caller) (endFirst : Bool) : (h.turn endFirst).Sound := by
  have hw := hs.reachable
  have hstands := hs.standing
  unfold turn
  rw [hstage] at hstands ⊢
  cases hstands with
  | acquiring key hkey hc =>
      dsimp only
      split
      · exact sound_hold (h := h.note _) hw hc endFirst
      · exact sound_close hw hc _
      · rename_i e ho
        exact sound_desert hw hkey ho rfl _
      · rename_i e ho
        exact sound_desert hw hkey ho rfl _
      · exact hs

/-- A caller that closes the context returns when the destroy attempt is over. -/
theorem sound_turn_closing (hs : h.Sound) {caller : Nat} {cause : Closing}
    (hstage : h.stage = .closing caller cause) (endFirst : Bool) : (h.turn endFirst).Sound := by
  have hw := hs.reachable
  have hstands := hs.standing
  unfold turn
  rw [hstage] at hstands ⊢
  cases hstands with
  | closing cause hstopped =>
      dsimp only
      split
      · rename_i e ho
        obtain ⟨k, hk, hout⟩ := Option.bind_eq_some_iff.mp ho
        obtain rfl := Option.some.inj (hk.symm.trans hstopped.caller)
        refine ⟨hw, .exited _ fun _ c' hc' => ?_⟩
        obtain rfl := Option.some.inj (hc'.symm.trans hstopped.context)
        exact (hstopped.outcome hout).1
      · exact hs

theorem Sound.turn (hs : h.Sound) (endFirst : Bool) : (h.turn endFirst).Sound := by
  cases hstage : h.stage with
  | opening => exact sound_turn_opening hs hstage endFirst
  | acquiring key caller => exact sound_turn_acquiring hs hstage endFirst
  | closing caller cause => exact sound_turn_closing hs hstage endFirst
  | holding caller =>
      have hstands := hs.standing
      unfold Holder.turn
      rw [hstage] at hstands ⊢
      dsimp only
      split
      · cases hstands with
        | holding caller hc => exact sound_letGo hs.reachable hc false
      · exact hs
  | releasing caller interrupted =>
      have hstands := hs.standing
      unfold Holder.turn
      rw [hstage] at hstands ⊢
      dsimp only
      split
      · cases hstands with
        | releasing caller interrupted hc => exact sound_close (h := h.note _) hs.reachable hc _
      · exact hs
  | leaving failure =>
      have hstands := hs.standing
      unfold Holder.turn
      rw [hstage] at hstands ⊢
      cases hstands with
      | leaving failure hfailed =>
          refine ⟨hs.reachable, .exited _ fun hnot => ?_⟩
          exact absurd (hfailed.symm.trans hnot) (by simp)
  | exited v => unfold Holder.turn; rw [hstage]; exact hs
  | killed => unfold Holder.turn; rw [hstage]; exact hs

theorem Sound.interrupt (hs : h.Sound) : h.interrupt.Sound := by
  obtain ⟨hw, hstands⟩ := hs
  unfold Holder.interrupt
  split
  · split
    · rename_i caller hstage
      rw [hstage] at hstands
      cases hstands with
      | holding caller hc =>
          exact sound_letGo (reachable_act hw _) (context_act hc (.abandon caller)).choose_spec true
    · exact ⟨hw, hstands⟩
  · exact ⟨hw, .killed⟩

/-! ## Runs of the program -/

theorem Sound.step (hs : h.Sound) (m : Move) : (h.step m).Sound := by
  unfold Holder.step
  split
  · exact hs
  · rename_i hover
    rw [Bool.not_eq_true] at hover
    cases m with
    | turn endFirst => exact hs.turn endFirst
    | poll p => exact hs.act hover (by simp)
    | advance t =>
        dsimp only
        split
        · exact hs
        · exact hs.act hover (by simp)
    | interrupt => exact hs.interrupt

/-- **Every run is sound.** -/
theorem Sound.run (hs : h.Sound) (moves : List Move) : (h.run moves).Sound := by
  induction moves generalizing h with
  | nil => exact hs
  | cons m rest ih => exact ih (hs.step m)

theorem sound_start (arguments : List String) (env : Environment) (agentOf : Client → Agent) :
    (start arguments env agentOf).Sound := by
  unfold start
  dsimp only
  split
  · exact ⟨.start [] {} 0, .exited _ fun _ c hc => absurd hc (by simp [exit, World.context?])⟩
  · rename_i client _
    have hw := World.Reachable.start (α := LockAnswer) [agentOf client] { links := [none] } 0
    exact ⟨hw.step (.begin 0 0 _), .opening (World.callers_eq_nil_of_step rfl (by simp))⟩

/-- Nothing happens to a program that is over. -/
theorem run_of_isOver (hover : h.isOver = true) (more : List Move) : h.run more = h := by
  induction more with
  | nil => rfl
  | cons m rest ih =>
      show (h.step m).run rest = h
      rw [show h.step m = h from if_pos hover]
      exact ih

theorem run_append (h : Holder) (first second : List Move) :
    h.run (first ++ second) = (h.run first).run second := List.foldl_append ..

/-! ## The key and the end -/

/-- What a turn makes of the program, as far as its key and its end go: it waits, it asks
something of the context, it drops the context, or it exits. -/
inductive Turned (h : Holder) : Holder → Prop
  | waits : Turned h h
  | asks (listening : Bool) (log : List LogLine) (demand : Demand LockAnswer)
      {stage : Nat → Stage} (hstage : ∀ caller, stage caller ≠ .killed) :
      Turned h ({ h with listening, log }.ask demand stage)
  | leaves (failure : Failure) : Turned h (h.desert failure)
  | exits (v : Verdict) : Turned h (h.exit v)

theorem turned_close (h : Holder) (listening : Bool) (log : List LogLine) (cause : Closing) :
    h.Turned ({ h with listening, log }.close cause) := .asks listening log .close (by simp)

theorem turned_letGo (h : Holder) (listening : Bool) (log : List LogLine) (interrupted : Bool) :
    h.Turned ({ h with listening, log }.letGo interrupted) := by
  rcases letGo_cases { h with listening, log } interrupted with ⟨cause, hcloses⟩ | ⟨work, hasks⟩
  · rw [hcloses]
    exact turned_close h listening log cause
  · rw [hasks]
    exact .asks listening log (.perform work) (by simp)

theorem turned_hold (h : Holder) (log : List LogLine) (endFirst : Bool) :
    h.Turned ({ h with log }.hold endFirst) := by
  unfold hold
  dsimp only
  split
  · exact turned_letGo h (!endFirst) _ false
  · exact .asks true _ .awaitEnd (by simp)

theorem turned_turn (h : Holder) (endFirst : Bool) : h.Turned (h.turn endFirst) := by
  unfold turn
  cases h.stage with
  | opening =>
      dsimp only
      split
      · split
        · exact .asks h.listening h.log _ (by simp)
        · exact turned_hold h h.log endFirst
      · exact .exits _
      · exact .waits
  | acquiring key caller =>
      dsimp only
      split
      · exact turned_hold h _ endFirst
      · exact turned_close h h.listening h.log _
      · exact .leaves _
      · exact .leaves _
      · exact .waits
  | holding caller =>
      dsimp only
      split
      · exact turned_letGo h h.listening h.log false
      · exact .waits
  | releasing caller interrupted =>
      dsimp only
      split
      · exact turned_close h h.listening _ _
      · exact .waits
  | closing caller cause =>
      dsimp only
      split
      · exact .exits _
      · exact .waits
  | leaving failure => exact .exits _
  | exited v => exact .waits
  | killed => exact .waits

theorem Turned.lockKey {h' : Holder} (h₁ : h.Turned h') : h'.lockKey = h.lockKey := by
  cases h₁ <;> rfl

/-- No turn of its own kills the program. -/
theorem Turned.lives {h' : Holder} (h₁ : h.Turned h') (hlives : h.stage ≠ .killed) :
    h'.stage ≠ .killed := by
  cases h₁ with
  | waits => exact hlives
  | asks _ _ _ hstage => exact hstage _
  | leaves failure => simp [desert]
  | exits v => simp [exit]

theorem lockKey_step (h : Holder) (m : Move) : (h.step m).lockKey = h.lockKey := by
  unfold Holder.step
  split
  · rfl
  · cases m with
    | turn endFirst => exact (turned_turn h endFirst).lockKey
    | poll p => rfl
    | advance t => dsimp only; split <;> rfl
    | interrupt =>
        dsimp only [Holder.interrupt]
        split
        · split
          · exact (turned_letGo (h.act _) h.listening _ true).lockKey
          · rfl
        · rfl

/-- The key that the program locks is the one that it was given. -/
theorem lockKey_run (h : Holder) (moves : List Move) : (h.run moves).lockKey = h.lockKey := by
  induction moves generalizing h with
  | nil => rfl
  | cons m rest ih => exact (ih (h.step m)).trans (lockKey_step h m)

theorem lockKey_start (arguments : List String) (env : Environment)
    (agentOf : Client → Agent) : (start arguments env agentOf).lockKey = arguments[1]? := by
  unfold start
  dsimp only
  split <;> rfl

/-- A move kills the program if it is an interruption that is not heard. -/
theorem killed_step_iff (m : Move) : (h.step m).stage = .killed ↔
    h.stage = .killed ∨ m = .interrupt ∧ h.isOver = false ∧ h.listening = false := by
  by_cases hover : h.isOver = true
  · rw [show h.step m = h from if_pos hover]
    simp [hover]
  have hlives : h.stage ≠ .killed := fun hkilled => hover (by unfold isOver; rw [hkilled])
  rw [show h.step m = _ from if_neg hover]
  cases m with
  | turn endFirst => simpa [hlives] using (turned_turn h endFirst).lives hlives
  | poll p =>
      show h.stage = .killed ↔ _
      simp
  | advance t =>
      dsimp only
      split
      · simp
      · show h.stage = .killed ↔ _
        simp
  | interrupt =>
      dsimp only [interrupt]
      split
      · rename_i hlistening
        split
        · rename_i caller hstage
          have hafter : (h.act (.abandon caller)).stage ≠ .killed := hlives
          have hgoing : ((h.act (.abandon caller)).letGo true).stage ≠ .killed :=
            (turned_letGo _ h.listening _ true).lives hafter
          simpa [hlives, hlistening] using hgoing
        · simp [hlistening]
      · rename_i hdeaf
        simp [hover, hdeaf]

/-- **What kills the program** is an interruption that comes while it does not listen. -/
theorem killed_run_iff (hlives : h.stage ≠ .killed) (moves : List Move) :
    (h.run moves).stage = .killed ↔ ∃ before after, moves = before ++ .interrupt :: after ∧
      (h.run before).isOver = false ∧ (h.run before).listening = false := by
  constructor
  · intro hkilled
    induction moves generalizing h with
    | nil => exact absurd hkilled hlives
    | cons m rest ih =>
        by_cases hfirst : (h.step m).stage = .killed
        · rcases (killed_step_iff m).mp hfirst with hbefore | ⟨rfl, hunheard⟩
          · exact absurd hbefore hlives
          · exact ⟨[], rest, rfl, hunheard⟩
        · obtain ⟨before, after, rfl, hunheard⟩ := ih hfirst hkilled
          exact ⟨m :: before, after, rfl, hunheard⟩
  · rintro ⟨before, after, rfl, hunheard⟩
    have hkilled : ((h.run before).step .interrupt).stage = .killed :=
      (killed_step_iff _).mpr (.inr ⟨rfl, hunheard⟩)
    have hover : ((h.run before).step .interrupt).isOver = true := by
      unfold isOver
      rw [hkilled]
    rw [run_append]
    show (((h.run before).step .interrupt).run after).stage = .killed
    rw [run_of_isOver hover, hkilled]

theorem stage_start_ne (arguments : List String) (env : Environment)
    (agentOf : Client → Agent) : (start arguments env agentOf).stage ≠ .killed := by
  unfold start
  dsimp only
  split <;> simp [exit]

/-! ## Exits -/

/-- The agent has been asked once to destroy the session, and the attempt is over. -/
structure HasDestroyed (h : Holder) (id : String) : Prop where
  calls : (h.world.log 0).destroyCalls = [id]
  finished : (h.world.log 0).overTimes.length = 1

/-- The session has been destroyed when the context says so. -/
theorem hasDestroyed_iff (hw : h.world.Reachable) (hc : h.world.context? 0 = some c) :
    h.HasDestroyed c.session.id ↔ c.destroyed = true := by
  obtain ⟨htorn, htimed⟩ := Context.timed_invariant.holds hw hc
  constructor
  · intro hgone
    by_contra hnot
    have hnone := htimed.over_eq_nil htorn (Bool.eq_false_iff.mpr hnot)
    exact absurd hgone.finished (by simp [hnone])
  · intro hdestroyed
    refine ⟨?_, htimed.over_of_destroyed htorn hdestroyed⟩
    cases htorn.attempted ((hw.ordered hc).destroyed hdestroyed) with
    | queued _ _ hnot => exact absurd (hdestroyed.symm.trans hnot) (by simp)
    | calling _ _ _ hnot => exact absurd (hdestroyed.symm.trans hnot) (by simp)
    | finished _ hcalls _ => exact hcalls

/-- A program that exits by itself has destroyed its session, unless its lock request
failed. -/
theorem Sound.gone (hs : h.Sound) (hover : h.isOver = true) (hlives : h.stage ≠ .killed)
    (hlock : h.lockFailed = false) (hc : h.world.context? 0 = some c) : c.destroyed = true := by
  have hstands := hs.standing
  unfold isOver at hover
  generalize h.stage = stage at hstands hover hlives
  cases hstands with
  | exited v hgone => exact hgone hlock c hc
  | killed => exact absurd rfl hlives
  | _ => exact absurd hover (by simp)

/-- **The session is closed at every exit but two.** Whatever the arguments, the environment
and the agent, and however the moves follow one another: if the session was begun and the
program is over, the agent has been asked once to destroy the session and the attempt is
over, unless the program was killed or its lock request failed. At those two exits this is
so only if the destroy attempt happens to be over, and a session that is still live has been
left behind for good. The program is killed by an interruption that comes before it listens,
and by nothing else; and without a key to lock no lock request fails. -/
theorem exits_closed (arguments : List String) (env : Environment) (agentOf : Client → Agent)
    (moves : List Move) {c : Context}
    (hover : ((start arguments env agentOf).run moves).isOver = true)
    (hc : ((start arguments env agentOf).run moves).world.context? 0 = some c) :
    let begun := start arguments env agentOf
    let h := begun.run moves
    (h.stage ≠ .killed → h.lockFailed = false → h.HasDestroyed c.session.id) ∧
    (h.stage = .killed ∨ h.lockFailed = true →
      (h.HasDestroyed c.session.id ↔ c.destroyed = true) ∧
      (c.error = none → (h.world.log 0).destroyCalls = [])) ∧
    (h.stage = .killed ↔ ∃ before after, moves = before ++ .interrupt :: after ∧
      (begun.run before).isOver = false ∧ (begun.run before).listening = false) ∧
    (arguments[1]? = none → h.lockFailed = false) ∧
    ∀ more, h.run more = h := by
  intro begun h
  have hs : h.Sound := (sound_start arguments env agentOf).run moves
  refine ⟨fun hlives hlock => ?_, fun _ => ⟨hasDestroyed_iff hs.reachable hc, fun hlive => ?_⟩,
    killed_run_iff (stage_start_ne arguments env agentOf) moves, fun hkey => ?_,
    run_of_isOver hover⟩
  · exact (hasDestroyed_iff hs.reachable hc).mpr (hs.gone hover hlives hlock hc)
  · exact ((Context.teardown_invariant.holds hs.reachable hc).live hlive).calls
  · unfold lockFailed
    rw [lockKey_run, lockKey_start, hkey]
    rfl

/-- An agent that creates and destroys sessions at once, and answers every lock request
alike. -/
def agentWithLock (answer : LockAnswer) : Agent :=
  { Agent.scripted "s-1" (fun _ => ⟨some 0, .ok ()⟩) ⟨some 0, .ok ()⟩ with
    lock := fun _ _ _ _ => ⟨some 0, answer⟩ }

/-- The program takes the lock, is interrupted, gives the lock back and closes the session. -/
def interrupted : List Move :=
  [.poll (.opening 0), .turn false, .poll (.caller 0), .turn false, .interrupt,
    .poll (.caller 2), .turn false, .poll (.caller 3), .poll (.destruction 0),
    .poll (.renewal 0), .poll (.caller 3), .turn false]

theorem exits_closed_of_interrupted :
    ((start ["orders", "k"] [] fun _ => agentWithLock (.ok true)).run interrupted).stage =
        .exited .interrupted ∧
      ((start ["orders", "k"] [] fun _ => agentWithLock (.ok true)).run interrupted).HasDestroyed
        "s-1" := by
  have hstage : ((start ["orders", "k"] [] fun _ => agentWithLock (.ok true)).run
    interrupted).stage = .exited .interrupted := by decide +kernel
  have hlock : ((start ["orders", "k"] [] fun _ => agentWithLock (.ok true)).run
    interrupted).lockFailed = false := by decide +kernel
  have hover : ((start ["orders", "k"] [] fun _ => agentWithLock (.ok true)).run
    interrupted).isOver = true := by decide +kernel
  have hid : (((start ["orders", "k"] [] fun _ => agentWithLock (.ok true)).run
    interrupted).world.context? 0).map (·.session.id) = some "s-1" := by decide +kernel
  obtain ⟨c, hc, hname⟩ := Option.map_eq_some_iff.mp hid
  have hgone := (exits_closed _ _ _ interrupted hover hc).1 (by rw [hstage]; simp) hlock
  exact ⟨hstage, hname ▸ hgone⟩

/-! ## A session left behind -/

/-- **A failed lock request leaves the session behind.** Wherever the agent answers the lock
request with an error while the session is live, the program can exit in its next two turns
with the session still live and without having asked the agent to destroy it, and it will
not ask any more. -/
theorem Sound.deserts (hs : h.Sound) {key : String} {caller : Nat} {e : ClientError}
    (hstage : h.stage = .acquiring key caller)
    (ho : h.outcome? caller = some (.value (.error e))) (hc : h.world.context? 0 = some c)
    (hlive : c.error = none) (first second : Bool) (more : List Move) :
    (h.run (.turn first :: .turn second :: more)).stage = .exited (.failed (.client e)) ∧
      (∃ c', (h.run (.turn first :: .turn second :: more)).world.context? 0 = some c' ∧
        c'.error = none) ∧
      ((h.run (.turn first :: .turn second :: more)).world.log 0).destroyCalls = [] := by
  have hfirst : h.step (.turn first) = h.desert (.client e) := by
    simp [Holder.step, isOver, Holder.turn, hstage, ho]
  have hsecond : (h.desert (.client e)).step (.turn second) =
      (h.desert (.client e)).exit (.failed (.client e)) := rfl
  have hrun : h.run (.turn first :: .turn second :: more) =
      (h.desert (.client e)).exit (.failed (.client e)) := by
    show ((h.step (.turn first)).step (.turn second)).run more = _
    rw [hfirst, hsecond]
    exact run_of_isOver rfl more
  rw [hrun]
  refine ⟨rfl, ?_⟩
  -- dropping the context enters nothing but that it was dropped
  show (∃ c', (h.world.step (.drop 0)).context? 0 = some c' ∧ c'.error = none) ∧
    ((h.world.step (.drop 0)).log 0).destroyCalls = []
  obtain ⟨c', events, hc', hlog, heffect⟩ := World.step_effect hc (.drop 0)
  have hcalls := ((Context.teardown_invariant.holds hs.reachable hc).live hlive).calls
  rw [hlog, Log.destroyCalls_append, hcalls]
  cases heffect with
  | drop => exact ⟨⟨_, hc', hlive⟩, rfl⟩
  | none _ => exact ⟨⟨_, hc', hlive⟩, rfl⟩

/-- The program asks for the lock and is answered. -/
def requested : List Move :=
  [.poll (.opening 0), .turn false, .poll (.caller 0)]

theorem not_always_closed :
    ¬ ∀ (arguments : List String) (env : Environment) (agentOf : Client → Agent)
      (moves : List Move) (c : Context),
      ((start arguments env agentOf).run moves).isOver = true →
      ((start arguments env agentOf).run moves).world.context? 0 = some c →
      ((start arguments env agentOf).run moves).HasDestroyed c.session.id := by
  intro hclosed
  have hs : ((start ["orders", "k"] [] fun _ => agentWithLock (.error .network)).run
    requested).Sound := (sound_start _ _ _).run requested
  have hstage : ((start ["orders", "k"] [] fun _ => agentWithLock (.error .network)).run
    requested).stage = .acquiring "k" 0 := by decide +kernel
  have ho : ((start ["orders", "k"] [] fun _ => agentWithLock (.error .network)).run
    requested).outcome? 0 = some (.value (.error .network)) := by decide +kernel
  have hbegun : (((start ["orders", "k"] [] fun _ => agentWithLock (.error .network)).run
    requested).world.context? 0).map (·.error) = some none := by decide +kernel
  obtain ⟨c, hc, hlive⟩ := Option.map_eq_some_iff.mp hbegun
  -- two turns on the program has exited, and the agent was asked to destroy nothing
  obtain ⟨hexited, ⟨c', hc', _⟩, hcalls⟩ := hs.deserts hstage ho hc hlive false false []
  rw [← run_append] at hexited hc' hcalls
  have hover : ((start ["orders", "k"] [] fun _ => agentWithLock (.error .network)).run
      (requested ++ [.turn false, .turn false])).isOver = true := by
    unfold isOver
    rw [hexited]
  have hgone := (hclosed _ _ _ _ c' hover hc').calls
  exact absurd (hcalls.symm.trans hgone) (by simp)

end Tenure.Holder
