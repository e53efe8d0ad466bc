import Tenure.Proofs.Lifecycle.Spared

/-!
# Every sequence of answers

Along an endless run a context that is left alone has its renewals answered one after
the other. Any sequence of answers can occur in this way: there is an agent that gives
them.

* `Course.Spares`, `Course.Answered` — nobody ends the context, and what its renewals
  are answered;
* `Course.Occurs` — there is a course in which a session is left alone and its renewals
  are answered in a given way;
* `Course.exists_answered` — so it is for every session that can be held and every
  sequence of answers.
-/

namespace Tenure.Lifecycle

variable {α : Type}

/-! ## Sequences of answers -/

/-- The answers that have been given are the first ones of the sequence. -/
def Begins (answers : Nat → Answer Unit) (given : List (Answer Unit)) : Prop :=
  ∀ k answer, given[k]? = some answer → answer = answers (k + 1)

section Begins

variable {answers : Nat → Answer Unit}

theorem Begins.split {settled : List (Answer Unit)} {answer : Answer Unit}
    (h : Begins answers (settled ++ [answer])) :
    Begins answers settled ∧ answer = answers (settled.length + 1) := by
  refine ⟨fun k a hk => ?_, h settled.length answer (by simp)⟩
  have hlt := (List.getElem?_eq_some_iff.mp hk).1
  exact h k a (by rwa [List.getElem?_append_left hlt])

theorem Begins.concat {given : List (Answer Unit)} {answer : Answer Unit}
    (h : Begins answers given) (hnext : answer = answers (given.length + 1)) :
    Begins answers (given ++ [answer]) := by
  intro k a hk
  by_cases hlt : k < given.length
  · exact h k a (by rwa [List.getElem?_append_left hlt] at hk)
  · have hle := (List.getElem?_eq_some_iff.mp hk).1
    rw [List.length_append, List.length_singleton] at hle
    obtain rfl : k = given.length := by omega
    rw [List.getElem?_concat_length] at hk
    exact (Option.some.inj hk).symm.trans hnext

end Begins

/-! ## Courses of a context -/

namespace Course

variable {start : World α} {course : Course start} {i : Nat} {answers : Nat → Answer Unit}

/-- Nobody ends the context of attempt `i`, its owner does not give it up, and its parent
is not cancelled. -/
structure Spares (course : Course start) (i : Nat) : Prop where
  actions : ∀ n, (course.action n).spares i = true
  parent : ∀ n c, (course.world n).context? i = some c →
    (course.world n).scopes.isCancelled c.parent = false

/-- The renewals of attempt `i` are answered like this, counted from one. -/
def Answered (course : Course start) (i : Nat) (answers : Nat → Answer Unit) : Prop :=
  ∀ n, Begins answers ((course.world n).renewalAnswers i)

/-- There is a course in which the session is held from `now` on and left alone, and its
renewals are answered like this. -/
def Occurs (α : Type) (session : Session) (answers : Nat → Answer Unit) (now : Nat) : Prop :=
  ∃ (agents : List Agent) (course : Course (World.untouched agents {} now : World α)),
    course.Spares 0 ∧ course.Answered 0 answers ∧
      ∃ n, (course.world n).context? 0 = some (.start session 0 0 now)

/-- A context stays, and so do its session and its start. -/
theorem context_later (hstart : start.Reachable) {n : Nat} {c : Context}
    (hc : (course.world n).context? i = some c) (m : Nat) :
    ∃ c', (course.world (n + m)).context? i = some c' ∧ c'.session = c.session ∧
      c'.started = c.started := by
  obtain ⟨more, hmore⟩ := course.world_add n m
  obtain ⟨c', hc', hsame⟩ := (course.reachable hstart n).keeps hc
    (P := fun c' => c'.session = c.session ∧ c'.started = c.started)
    (fun hmove h => ⟨hmove.frame.1.trans h.1, hmove.frame.2.2.2.trans h.2⟩) ⟨rfl, rfl⟩ more
  exact ⟨c', by rw [hmore, hc'], hsame⟩

theorem context_same (hstart : start.Reachable) {n m : Nat} {c c' : Context}
    (hc : (course.world n).context? i = some c)
    (hc' : (course.world m).context? i = some c') :
    c'.session = c.session ∧ c'.started = c.started := by
  rcases Nat.le_total n m with hle | hle
  · obtain ⟨d, rfl⟩ := Nat.exists_eq_add_of_le hle
    obtain ⟨c'', hc'', hsame⟩ := context_later hstart hc d
    obtain rfl := Option.some.inj (hc'.symm.trans hc'')
    exact hsame
  · obtain ⟨d, rfl⟩ := Nat.exists_eq_add_of_le hle
    obtain ⟨c'', hc'', hsession, hstarted⟩ := context_later hstart hc' d
    obtain rfl := Option.some.inj (hc.symm.trans hc'')
    exact ⟨hsession.symm, hstarted.symm⟩

end Course

/-! ## Every sequence of answers occurs -/

/-- The calls that are renewals are those that have a time. -/
theorem Log.countP_isRenew (log : Log) :
    (log.filterMap (·.2.agentCall?)).countP (·.isRenew) = log.renewalTimes.length := by
  induction log with
  | nil => rfl
  | cons x rest ih =>
      obtain ⟨t, e⟩ := x
      have hother : e.agentCall?.all (!·.isRenew) = true → e.renewCall? = none →
          (List.filterMap (·.2.agentCall?) ((t, e) :: rest)).countP (·.isRenew) =
            (Log.renewalTimes ((t, e) :: rest)).length := by
        intro hcall hnone
        unfold Log.renewalTimes at ih ⊢
        rw [List.filterMap_cons, List.filterMap_cons, hnone]
        cases hagent : e.agentCall? with
        | none => exact ih
        | some call =>
            rw [hagent, Option.all_some] at hcall
            rw [List.countP_cons_of_neg (by simpa using hcall)]
            exact ih
      cases e with
      | issued n call =>
          cases call with
          | renew id => exact (List.countP_cons_of_pos rfl).trans (congrArg Nat.succ ih)
          | _ => exact hother rfl rfl
      | worked s => cases s <;> exact hother rfl rfl
      | performed s => cases s <;> exact hother rfl rfl
      | _ => exact hother rfl rfl

/-- With only one attempt, the agent has been asked for the renewals of that attempt. -/
theorem World.Reachable.countP_history {w : World α} (hw : w.Reachable)
    (hsingle : w.attempts.length ≤ 1) {c : Context} (hc : w.context? 0 = some c) :
    (w.history c.agent).countP (·.isRenew) = (w.log 0).renewalTimes.length := by
  have hg := hw.grounded
  have hasked : w.journal.filter (fun e => w.agentOf e.attempt == c.agent) = w.journal := by
    refine List.filter_eq_self.mpr fun e he => ?_
    rw [hg.attempt_eq_zero hsingle he, (hg.context_agent hc).1]
    exact beq_self_eq_true c.agent
  have hlog : (w.log 0).filterMap (·.2.agentCall?) = w.history c.agent := by
    unfold World.history World.log
    rw [hasked, hg.filter_journal hsingle, List.filterMap_map]
    rfl
  rw [← hlog]
  exact (w.log 0).countP_isRenew

namespace Course

section Scripted

variable {id : String} {answers : Nat → Answer Unit} {destroy : Answer Unit} {scopes : Scopes}
  {now : Nat}

/-- An agent that serves only one attempt answers its renewals as in its script. -/
theorem answered_of_script (course : Course
    (World.untouched [.scripted id (fun k => answers (k + 1)) destroy] scopes now : World α))
    (hsingle : ∀ n, (course.world n).attempts.length ≤ 1) : course.Answered 0 answers := by
  have hstart : (World.untouched [.scripted id (fun k => answers (k + 1)) destroy] scopes now :
      World α).Reachable := .start ..
  intro n
  induction n with
  | zero =>
      rw [course.begins]
      exact fun k answer hk => absurd hk (by simp [World.untouched, World.renewalAnswers])
  | succ n ih =>
      have hw := course.reachable hstart n
      rw [course.follows]
      cases hc : (course.world n).context? 0 with
      | none =>
          rw [World.renewalAnswers_eq_nil (hw.grounded.opening_step hc _)]
          exact fun k answer hk => absurd hk (by simp)
      | some c =>
          rcases hw.renewal_step hc (course.action n) with ⟨_, hsame⟩ | ⟨answer, hissues, hnew⟩
          · rw [hsame]
            exact ih
          · -- the agent has been asked for as many renewals as it has answered
            obtain ⟨agent, hagent, rfl⟩ := hissues.answer
            rw [course.agents_eq n] at hagent
            obtain rfl : agent = .scripted id (fun k => answers (k + 1)) destroy :=
              List.mem_singleton.mp (List.mem_of_getElem? hagent)
            have hcount := hw.countP_history (hsingle n) hc
            rw [← (Context.bookkeeping_invariant.holds hw hc).counted] at hcount
            rw [hnew]
            refine ih.concat ?_
            show answers (_ + 1) = _
            rw [hcount]

/-- One attempt to hold a session with a scripted agent, left to itself. -/
def scripted (α : Type) (requested : Session) (id : String) (answers : Nat → Answer Unit)
    (destroy : Answer Unit) (now : Nat) : Course
      (World.untouched [.scripted id (fun k => answers (k + 1)) destroy] {} now : World α) :=
  .after (.begin 0 0 requested) (.drift ((World.Reachable.start ..).step _))

variable {requested : Session}

theorem scripted_frame (n : Nat) :
    ((scripted α requested id answers destroy now).world n).attempts.length ≤ 1 ∧
      ((scripted α requested id answers destroy now).world n).scopes = {} := by
  cases n with
  | zero => exact ⟨Nat.zero_le 1, rfl⟩
  | succ n =>
      have hframe := World.drift_frame ((World.untouched
        [.scripted id (fun k => answers (k + 1)) destroy] {} now : World α).step
          (.begin 0 0 requested)) n
      exact ⟨Nat.le_of_eq hframe.1, hframe.2⟩

theorem scripted_answered : (scripted α requested id answers destroy now).Answered 0 answers :=
  answered_of_script _ fun n => (scripted_frame n).1

theorem scripted_spares : (scripted α requested id answers destroy now).Spares 0 where
  actions n := by
    cases n with
    | zero => rfl
    | succ n => exact World.next_spares _ 0
  parent n c _ := by
    rw [(scripted_frame n).2, Scopes.isCancelled]
    rfl

/-- The first turn opens any session that resolves and can be sent to the agent. -/
theorem scripted_begins {session : Session} {config : SessionConfig}
    (hresolve : requested.resolve = .ok session) (hwire : session.wire? = some config) :
    ((scripted α requested id answers destroy now).world 2).context? 0 =
      some (.start { session with id := id } 0 0 now) := by
  let begun : World α :=
    { now
      agents := [.scripted id (fun k => answers (k + 1)) destroy]
      attempts := [{ agent := 0, parent := 0, requested }] }
  have hscopes : ({} : Scopes).isCancelled 0 = false := by
    rw [Scopes.isCancelled]
    rfl
  have hnext : begun.next = .poll (.opening 0) := rfl
  show (begun.step begun.next).context? 0 = _
  rw [hnext]
  show (begun.pollAttempt 0).context? 0 = _
  simp [begun, World.pollAttempt, World.context?, World.setAttempt, World.enter, Attempt.poll,
    Attempt.pollCreating, Attempt.context?, Attempt.setContext, Pending.standing,
    Pending.isReady, Pending.issue, Agent.scripted, hscopes, hresolve, hwire]

/-- **Every sequence of answers occurs:** whatever session is asked for, if it can be held at
all, there is a course in which it is held, left alone, and its renewals are answered so. -/
theorem exists_answered (requested : Session) {session : Session} {config : SessionConfig}
    (hresolve : requested.resolve = .ok session) (hwire : session.wire? = some config)
    (id : String) (answers : Nat → Answer Unit) (now : Nat) :
    Occurs α { session with id := id } answers now :=
  ⟨_, scripted α requested id answers ⟨some 0, .ok ()⟩ now, scripted_spares, scripted_answered,
    2, scripted_begins hresolve hwire⟩

end Scripted

end Course

end Tenure.Lifecycle
