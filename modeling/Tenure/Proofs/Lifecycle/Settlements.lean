import Tenure.Proofs.Lifecycle.Counters
import Tenure.Proofs.Lifecycle.Teardown

/-!
# Calls that are over

Every call of a run has a number of its own. So where the journal says that a number was
answered or given up, it says which call is over, and whether the context was still live.
The counters of renewals and of destroy attempts tell how many calls are over in which way.

* `World.Reachable.numbers_increase` — calls are numbered in the order of the journal;
* `Log.settlements` — the calls of an attempt that are over, read off its log;
* `Context.Books` — the invariant: the calls in flight are in the log, and the counters
  agree with the calls that are over.
-/

namespace Tenure.Lifecycle

variable {α : Type}

/-! ## Calls are numbered -/

namespace Event

/-- The number of the call, if the event is one. -/
def number? : Event → Option Nat
  | .issued n _ => some n
  | _ => none

end Event

/-- The events have at most one call, under this number. -/
def OneNumber (number : Nat) (events : List Event) : Prop :=
  events.filterMap Event.number? = [] ∨ events.filterMap Event.number? = [number]

namespace Attempt

theorem numbers_pollCreating (a : Attempt) (parentCancelled : Bool) (now : Nat)
    (session : Session) (call : Pending String) :
    (a.pollCreating parentCancelled now session call).2.filterMap Event.number? = [] := by
  unfold pollCreating
  split
  · rfl
  · split <;> rfl

theorem oneNumber_poll (a : Attempt) (parentCancelled : Bool) (now number : Nat)
    (createAnswer : SessionConfig → Answer String) :
    OneNumber number (a.poll parentCancelled now number createAnswer).2 := by
  unfold poll
  split
  · split
    · exact .inl rfl
    · split
      · split <;> exact .inl rfl
      · split
        · exact .inl rfl
        · refine .inr ?_
          dsimp only
          rw [List.filterMap_cons, numbers_pollCreating]
          rfl
  · exact .inl (numbers_pollCreating ..)
  · exact .inl rfl

end Attempt

namespace Context

theorem numbers_conclude (c : Context) (e : SessionError) :
    (c.conclude e).2.filterMap Event.number? = [] := by
  unfold conclude
  split <;> rfl

theorem numbers_renewalFailed (c : Context) (tick expiry : Nat) (call : Pending Unit)
    (cause : ClientError) :
    (c.renewalFailed tick expiry call cause).2.filterMap Event.number? = [] := by
  unfold renewalFailed
  split
  · rfl
  · exact c.numbers_conclude _

theorem numbers_pollRenewing (s : Surroundings) (c : Context) (tick expiry : Nat)
    (call : Pending Unit) :
    (c.pollRenewing s tick expiry call).2.filterMap Event.number? = [] := by
  unfold pollRenewing
  split
  · rfl
  · split
    · rfl
    · rfl
    · exact c.numbers_renewalFailed ..
    · exact c.numbers_renewalFailed ..

theorem oneNumber_pollRenewal (s : Surroundings) (c : Context) :
    OneNumber s.number (c.pollRenewal s).2 := by
  unfold pollRenewal
  split
  · split
    · exact .inl rfl
    · split
      · exact .inl (c.numbers_conclude _)
      · split
        · exact .inl (c.numbers_conclude _)
        · split
          · refine .inr ?_
            dsimp only
            rw [List.filterMap_cons, numbers_pollRenewing]
            rfl
          · exact .inl rfl
  · exact .inl (c.numbers_pollRenewing ..)
  · split <;> exact .inl rfl
  · exact .inl rfl

theorem numbers_pollDestroying (s : Surroundings) (c : Context) (call : Pending Unit) :
    (c.pollDestroying s call).2.filterMap Event.number? = [] := by
  unfold pollDestroying
  split <;> rfl

theorem oneNumber_pollDestruction (s : Surroundings) (c : Context) :
    OneNumber s.number (c.pollDestruction s).2 := by
  unfold pollDestruction
  split
  · refine .inr ?_
    dsimp only
    rw [List.filterMap_cons, numbers_pollDestroying]
    rfl
  · exact .inl (c.numbers_pollDestroying ..)
  · exact .inl rfl

/-- Only the tasks of a context make calls. -/
theorem Moves.numbers_of_not_task {s : Surroundings} {actor : Actor} {c c' : Context}
    {events : List Event} (h : Moves s actor c events c') (hactor : actor.isTask = false) :
    events.filterMap Event.number? = [] := by
  refine List.filterMap_eq_nil_iff.mpr (h.forall_events fun hmove e he => ?_)
  cases hmove with
  | cancel _ _ => rw [List.mem_singleton.mp he]; rfl
  | drop _ _ => rw [List.mem_singleton.mp he]; rfl
  | work _ hwork =>
      have hkind := hwork e he
      cases e <;> first | rfl | exact absurd hkind (by simp [Event.isWork])
  | handOutToken => exact absurd he List.not_mem_nil
  | cancelToken _ => exact absurd he List.not_mem_nil
  | _ => exact absurd hactor (by simp [Actor.isTask])

end Context

namespace World

/-- The numbers of the calls in the journal. -/
def numbers (w : World α) : List Nat := w.journal.filterMap (·.event.number?)

theorem turns_poll (w : World α) (p : Process) : (w.step (.poll p)).turns = w.turns + 1 := by
  have hcontext : ∀ i turn, (w.pollContext i turn).turns = w.turns := by
    intro i turn
    unfold pollContext
    split
    · rfl
    · split <;> rfl
  have hattempt : ∀ i, (w.pollAttempt i).turns = w.turns := by
    intro i
    unfold pollAttempt
    split
    · rfl
    · split <;> rfl
  have hcaller : ∀ j, (w.pollCaller j).turns = w.turns := by
    intro j
    unfold pollCaller
    split
    · rfl
    · split <;> rfl
  cases p with
  | opening i => exact congrArg (· + 1) (hattempt i)
  | renewal i => exact congrArg (· + 1) (hcontext i _)
  | destruction i => exact congrArg (· + 1) (hcontext i _)
  | caller j => exact congrArg (· + 1) (hcaller j)

theorem turns_le_step (w : World α) (a : Action α) : w.turns ≤ (w.step a).turns := by
  have hupdate : ∀ i f events, (w.updateContext i f events).turns = w.turns := by
    intro i f events
    unfold updateContext
    split <;> rfl
  cases a with
  | poll p => rw [turns_poll]; exact Nat.le_succ _
  | begin agent parent session => simp only [step]; split <;> exact Nat.le_refl _
  | call i demand => simp only [step]; split <;> exact Nat.le_refl _
  | abandon j =>
      simp only [step, abandonCaller]
      split
      · exact Nat.le_refl _
      · split <;> exact Nat.le_refl _
  | drop i => exact Nat.le_of_eq (hupdate i _ _).symm
  | cancelScope i => exact Nat.le_refl _
  | handOutToken i => exact Nat.le_of_eq (hupdate i _ _).symm
  | cancelToken i k => exact Nat.le_of_eq (hupdate i _ _).symm
  | advance t => simp only [step, advance]; split <;> exact Nat.le_refl _

/-- Only a turn makes a call, at most one, under the number of the turn. -/
theorem Effect.oneNumber {w : World α} {i : Nat} {c c' : Context} {a : Action α}
    {events : List Event} {agent : Agent} (hagent : w.agents[c.agent]? = some agent)
    (hs : c.Signalled) (h : w.Effect i c a c' events) :
    events.filterMap Event.number? = [] ∨
      (∃ p, a = .poll p) ∧ events.filterMap Event.number? = [w.turns] := by
  have hmoves := h.moves hagent hs
  cases h with
  | renewal _ => exact (Context.oneNumber_pollRenewal _ c).imp id fun h => ⟨⟨_, rfl⟩, h⟩
  | destruction _ => exact (Context.oneNumber_pollDestruction _ c).imp id fun h => ⟨⟨_, rfl⟩, h⟩
  | caller _ _ => exact .inl (hmoves.numbers_of_not_task rfl)
  | abandon _ _ => exact .inl (hmoves.numbers_of_not_task rfl)
  | drop => exact .inl rfl
  | handOutToken => exact .inl rfl
  | cancelToken k => exact .inl rfl
  | none => exact .inl rfl

theorem numbers_enter {w w' : World α} {j : Nat} {events : List Event}
    (h : w'.journal = (w.enter j events).journal) :
    w'.numbers = w.numbers ++ events.filterMap Event.number? := by
  unfold numbers
  rw [h]
  unfold enter
  rw [List.filterMap_append, List.filterMap_map]
  rfl

/-- The step: a call goes out under the number of a turn that has not been before. -/
theorem Reachable.step_numbers {w : World α} (hw : w.Reachable) (a : Action α) :
    (w.step a).numbers = w.numbers ∨
      (w.step a).numbers = w.numbers ++ [w.turns] ∧ (w.step a).turns = w.turns + 1 := by
  have hsame : ∀ {w' : World α}, w'.journal = w.journal → w'.numbers = w.numbers := by
    intro w' h
    unfold numbers
    rw [h]
  have henter : ∀ {j : Nat} {events : List Event},
      (w.step a).journal = (w.enter j events).journal →
      events.filterMap Event.number? = [] ∨
        (∃ p, a = .poll p) ∧ events.filterMap Event.number? = [w.turns] →
      (w.step a).numbers = w.numbers ∨
        (w.step a).numbers = w.numbers ++ [w.turns] ∧ (w.step a).turns = w.turns + 1 := by
    intro j events hjournal hnumbers
    rw [numbers_enter hjournal]
    rcases hnumbers with hnone | ⟨⟨p, rfl⟩, hone⟩
    · exact .inl (by rw [hnone, List.append_nil])
    · exact .inr ⟨by rw [hone], w.turns_poll p⟩
  cases step_change w a with
  | none _ _ _ hjournal => exact .inl (hsame hjournal)
  | passed t hw' _ _ _ => exact .inl (by rw [hw']; rfl)
  | made _ _ _ _ _ _ hjournal => exact .inl (hsame hjournal)
  | opening _ _ j b agent hturn _ _ hjournal =>
      exact henter hjournal ((Attempt.oneNumber_poll ..).imp id fun h => ⟨⟨_, hturn.1⟩, h⟩)
  | context _ _ j c c' events hc heffect _ hjournal =>
      obtain ⟨_, agent, hagent⟩ := hw.grounded.context_agent hc
      exact henter hjournal (heffect.oneNumber hagent (hw.grounded.signalled j c hc))

/-- **Calls are numbered** in the order in which they are made. -/
theorem Reachable.numbers_increase {w : World α} (hw : w.Reachable) :
    w.numbers.Pairwise (· < ·) ∧ ∀ n ∈ w.numbers, n < w.turns := by
  induction hw with
  | start agents scopes now =>
      exact ⟨.nil, fun n hn => absurd hn (by simp [numbers, untouched])⟩
  | @step w a hw ih =>
      obtain ⟨hordered, hbelow⟩ := ih
      rcases hw.step_numbers a with hsame | ⟨hone, hturns⟩
      · rw [hsame]
        exact ⟨hordered, fun n hn => Nat.lt_of_lt_of_le (hbelow n hn) (turns_le_step w a)⟩
      · rw [hone, hturns]
        refine ⟨List.pairwise_append.mpr ⟨hordered, List.pairwise_singleton _ _, ?_⟩, ?_⟩
        · intro n hn m hm
          rw [List.mem_singleton.mp hm]
          exact hbelow n hn
        · intro n hn
          rcases List.mem_append.mp hn with hold | hnew
          · exact Nat.lt_succ_of_lt (hbelow n hold)
          · rw [List.mem_singleton.mp hnew]
            exact Nat.lt_succ_self _

end World

namespace Log

/-- The numbers of the calls in a log. -/
def numbers (log : Log) : List Nat := log.filterMap (·.2.number?)

theorem numbers_append (log more : Log) :
    (log ++ more : Log).numbers = log.numbers ++ more.numbers := List.filterMap_append ..

end Log

/-- No two calls of an attempt have the same number. -/
theorem World.Reachable.log_numbers_nodup {w : World α} (hw : w.Reachable) (i : Nat) :
    (w.log i).numbers.Nodup := by
  have hall : w.numbers.Nodup := hw.numbers_increase.1.imp Nat.ne_of_lt
  refine List.Nodup.sublist ?_ hall
  unfold Log.numbers log numbers
  rw [List.filterMap_map]
  exact List.filter_sublist.filterMap _

/-! ## Settlements -/

/-- Whether a call asks for the session to be destroyed. -/
def AgentCall.isDestroy : AgentCall → Bool
  | .destroy _ => true
  | _ => false

namespace Event

/-- The call, if the event is one with this number. -/
def issuedAs? (n : Nat) : Event → Option AgentCall
  | .issued m call => if m = n then some call else none
  | _ => none

/-- The number of the call that the event ends, and whether it ends well. -/
def settles? : Event → Option (Nat × Bool)
  | .answered n ok => some (n, ok)
  | .abandoned n => some (n, false)
  | _ => none

theorem settles?_of_isWork {e : Event} (h : e.isWork = true) : e.settles? = none := by
  cases e <;> first | rfl | exact absurd h (by simp [isWork])

end Event

/-- A call that is over. -/
structure Settlement where
  call : AgentCall
  /-- Whether the context had not ended by then. -/
  live : Bool
  /-- Whether there was an answer, and a good one. -/
  ok : Bool
deriving DecidableEq

namespace Log

/-- The call that was made under a number. -/
def call? (log : Log) (n : Nat) : Option AgentCall := log.findSome? (·.2.issuedAs? n)

/-- What an event settles after `past`. -/
def settlement? (past : Log) (e : Event) : Option Settlement := do
  let (n, ok) ← e.settles?
  let call ← past.call? n
  return { call, live := past.endings.isEmpty, ok }

/-- What the events of a log settle after `past`. -/
def settlementsAfter (past : Log) : Log → List Settlement
  | [] => []
  | x :: rest => (past.settlement? x.2).toList ++ settlementsAfter (past ++ [x]) rest

/-- The calls that are over, in the order in which they ended. -/
def settlements (log : Log) : List Settlement := settlementsAfter [] log

theorem settlementsAfter_append (past first second : Log) :
    past.settlementsAfter (first ++ second) =
      past.settlementsAfter first ++ (past ++ first).settlementsAfter second := by
  induction first generalizing past with
  | nil => rw [List.append_nil]; rfl
  | cons x rest ih =>
      show _ ++ (past ++ [x]).settlementsAfter (rest ++ second) = _
      rw [ih, ← List.append_assoc, List.append_assoc past]
      rfl

theorem settlements_append (log more : Log) :
    (log ++ more : Log).settlements = log.settlements ++ log.settlementsAfter more :=
  settlementsAfter_append [] log more

theorem settlementsAfter_eq_nil {past more : Log} (h : ∀ x ∈ more, x.2.settles? = none) :
    past.settlementsAfter more = [] := by
  induction more generalizing past with
  | nil => rfl
  | cons x rest ih =>
      unfold settlementsAfter settlement?
      rw [h x List.mem_cons_self, ih fun y hy => h y (List.mem_cons_of_mem _ hy)]
      rfl

/-- A number that was given once tells which call was made. -/
theorem call?_of_mem {log : Log} (hnumbers : log.numbers.Nodup) {t n : Nat} {call : AgentCall}
    (h : (t, .issued n call) ∈ log) : log.call? n = some call := by
  induction log with
  | nil => exact absurd h List.not_mem_nil
  | cons x rest ih =>
      obtain ⟨t', e⟩ := x
      unfold call?
      rw [List.findSome?_cons]
      rcases List.mem_cons.mp h with hfirst | hrest
      · obtain ⟨rfl, rfl⟩ := Prod.mk.inj hfirst
        simp [Event.issuedAs?]
      · have hn : n ∈ Log.numbers rest := List.mem_filterMap.mpr ⟨_, hrest, rfl⟩
        cases e with
        | issued m other =>
            have hdistinct : (m :: Log.numbers rest).Nodup := hnumbers
            obtain ⟨hm, hlater⟩ := List.nodup_cons.mp hdistinct
            have hne : m ≠ n := fun h => hm (h ▸ hn)
            simp only [Event.issuedAs?, if_neg hne]
            exact ih hlater hrest
        | _ => exact ih hnumbers hrest

theorem mem_of_call? {log : Log} {n : Nat} {call : AgentCall} (h : log.call? n = some call) :
    ∃ t, (t, .issued n call) ∈ log := by
  obtain ⟨⟨t, e⟩, hmem, he⟩ := List.exists_of_findSome?_eq_some h
  refine ⟨t, ?_⟩
  cases e with
  | issued m other =>
      simp only [Event.issuedAs?] at he
      split at he
      · rename_i hm
        obtain rfl := hm
        obtain rfl := Option.some.inj he
        exact hmem
      · exact absurd he (by simp)
  | _ => exact absurd he (by simp [Event.issuedAs?])

/-- A call that is over was made. -/
theorem mem_of_settlementsAfter {past more : Log} {s : Settlement}
    (h : s ∈ past.settlementsAfter more) : ∃ t n, (t, .issued n s.call) ∈ past ++ more := by
  induction more generalizing past with
  | nil => exact absurd h List.not_mem_nil
  | cons x rest ih =>
      rcases List.mem_append.mp h with hfirst | hrest
      · obtain ⟨⟨n, ok⟩, _, hcall⟩ := Option.bind_eq_some_iff.mp (Option.mem_toList.mp hfirst)
        obtain ⟨call, hfound, hs⟩ := Option.bind_eq_some_iff.mp hcall
        obtain rfl := Option.some.inj hs
        obtain ⟨t, hmem⟩ := mem_of_call? hfound
        exact ⟨t, n, List.mem_append_left _ hmem⟩
      · obtain ⟨t, n, hmem⟩ := ih hrest
        exact ⟨t, n, by rwa [List.append_assoc] at hmem⟩

end Log

/-! ## Outcomes -/

/-- How many renewals of a live context went well, how many did not, and how many destroy
attempts failed. -/
structure Outcomes where
  renewed : Nat
  unrenewed : Nat
  undestroyed : Nat
deriving DecidableEq

namespace Settlement

/-- Whether a renewal is over of a context that was still live. -/
def isRenewal (s : Settlement) : Bool := s.call.isRenew && s.live

/-- Whether a destroy attempt is over that failed. -/
def isUndestroyed (s : Settlement) : Bool := s.call.isDestroy && !s.ok

end Settlement

/-- What the counters tell. -/
def Metrics.outcomes (m : Metrics) : Outcomes :=
  ⟨m.renewalsOk, m.renewalsMissed + m.renewalsExpired, m.destroyFailures⟩

/-- What the calls tell that are over. -/
def Outcomes.of (settlements : List Settlement) : Outcomes :=
  ⟨settlements.countP fun s => s.isRenewal && s.ok,
    settlements.countP fun s => s.isRenewal && !s.ok, settlements.countP (·.isUndestroyed)⟩

namespace Log

/-- The counters agree with the calls that are over. -/
def Balanced (log : Log) : Prop := log.metrics.outcomes = .of log.settlements

/-- What comes later adds to the counters. -/
theorem metrics_add (log more : Log) :
    (log ++ more : Log).metrics = log.metrics + more.metrics := by
  induction more using List.reverseRecOn with
  | nil =>
      rw [List.append_nil]
      show log.metrics = log.metrics.plus {}
      simp only [Metrics.plus, Nat.add_zero, Int.add_zero]
  | append_singleton more x ih =>
      rw [← List.append_assoc, metrics_append, ih, metrics_append more]
      exact Metrics.record_add_right ..

theorem Balanced.append {log more : Log} (h : log.Balanced)
    (hmore : more.metrics.outcomes = .of (log.settlementsAfter more)) :
    (log ++ more : Log).Balanced := by
  obtain ⟨hrenewed, hunrenewed, hundestroyed⟩ := Outcomes.mk.inj h
  obtain ⟨hrenewed', hunrenewed', hundestroyed'⟩ := Outcomes.mk.inj hmore
  unfold Balanced Outcomes.of
  rw [metrics_add, settlements_append, List.countP_append, List.countP_append,
    List.countP_append, ← hrenewed, ← hunrenewed, ← hundestroyed, ← hrenewed', ← hunrenewed',
    ← hundestroyed']
  simp only [Metrics.outcomes, Metrics.add_eq, Metrics.plus, Nat.add_add_add_comm]

/-- What comes after a first event that settles a call settles nothing more. -/
theorem settlementsAfter_first {past : Log} {now n : Nat} {first : Event} {ok : Bool}
    {rest : List Event} {call : AgentCall} (hfirst : first.settles? = some (n, ok))
    (hcall : past.call? n = some call) (hrest : ∀ e ∈ rest, e.settles? = none) :
    past.settlementsAfter ((first :: rest).map (now, ·)) =
      [⟨call, past.endings.isEmpty, ok⟩] := by
  have hlater : (past ++ [(now, first)]).settlementsAfter (rest.map (now, ·)) = [] :=
    settlementsAfter_eq_nil (List.forall_mem_map.mpr hrest)
  show (past.settlement? first).toList ++ settlementsAfter _ (rest.map (now, ·)) = _
  unfold settlement?
  rw [hlater, hfirst, List.append_nil]
  dsimp only [Option.bind_eq_bind, Option.bind_some]
  rw [hcall]
  rfl

theorem metrics_of_isWork {now : Nat} {events : List Event}
    (h : ∀ e ∈ events, e.isWork = true) : Log.metrics (events.map (now, ·)) = {} := by
  induction events with
  | nil => rfl
  | cons e rest ih =>
      have hone : Log.metrics [(now, e)] = {} := by
        have hwork := h e List.mem_cons_self
        cases e <;> first | rfl | exact absurd hwork (by simp [Event.isWork])
      have hrest := ih fun x hx => h x (List.mem_cons_of_mem _ hx)
      refine (metrics_add [(now, e)] (rest.map (now, ·))).trans ?_
      rw [hone, hrest]
      rfl

/-- Before there is a context, only the creation counts. -/
theorem metrics_of_isOpening {log : Log} (h : ∀ x ∈ log, x.2.isOpening = true) :
    ∃ active createsOk createsError, log.metrics = { active, createsOk, createsError } := by
  induction log using List.reverseRecOn with
  | nil => exact ⟨0, 0, 0, rfl⟩
  | append_singleton log x ih =>
      obtain ⟨active, createsOk, createsError, hbefore⟩ :=
        ih fun y hy => h y (List.mem_append_left _ hy)
      obtain ⟨t, e⟩ := x
      have hlast := h _ (List.mem_append_right _ (List.mem_singleton_self (t, e)))
      rw [metrics_append, hbefore]
      cases e <;> first | exact ⟨_, _, _, rfl⟩ | exact absurd hlast (by simp [Event.isOpening])

/-- Before there is a context, no renewal and no destroy attempt is over. -/
theorem balanced_of_isOpening {log : Log} (h : ∀ x ∈ log, x.2.isOpening = true) :
    log.Balanced := by
  have hcreates : ∀ s ∈ log.settlements, s.isRenewal = false ∧ s.isUndestroyed = false := by
    intro s hs
    obtain ⟨t, n, hmem⟩ := mem_of_settlementsAfter hs
    have hopening := h _ hmem
    unfold Settlement.isRenewal Settlement.isUndestroyed
    cases hcall : s.call <;> rw [hcall] at hopening <;>
      first | exact ⟨rfl, rfl⟩ | exact absurd hopening (by simp [Event.isOpening])
  have hzero : ∀ {p : Settlement → Bool}, (∀ s ∈ log.settlements, p s = false) →
      log.settlements.countP p = 0 :=
    fun hp => List.countP_eq_zero.mpr fun s hs => by rw [hp s hs]; exact Bool.false_ne_true
  obtain ⟨_, _, _, hmetrics⟩ := metrics_of_isOpening h
  unfold Balanced Outcomes.of
  rw [hmetrics, hzero fun s hs => by rw [(hcreates s hs).1]; rfl,
    hzero fun s hs => by rw [(hcreates s hs).1]; rfl, hzero fun s hs => (hcreates s hs).2]
  rfl

end Log

/-! ## The invariant -/

namespace Context

/-- The calls in flight are in the log, and the counters agree with the calls that are
over. -/
structure Books (c : Context) (log : Log) : Prop where
  renewing : ∀ tick expiry call, c.renewal = .renewing tick expiry call →
    ∃ t, (t, .issued call.number (.renew c.session.id)) ∈ log
  calling : ∀ call, c.destruction = .calling call →
    ∃ t, (t, .issued call.number (.destroy c.session.id)) ∈ log
  balanced : log.Balanced

/-- A renewal in flight was in flight before, or has just been issued. -/
theorem Move.renewing {s : Surroundings} {actor : Actor} {c c' : Context} {events : List Event}
    (h : Move s actor c events c') {tick expiry : Nat} {call : Pending Unit}
    (hrenewal : c'.renewal = .renewing tick expiry call) :
    c.renewal = .renewing tick expiry call ∨
      .issued call.number (.renew c.session.id) ∈ events := by
  cases h with
  | issueRenewal _ _ _ _ _ =>
      cases hrenewal
      exact .inr List.mem_cons_self
  | _ => first | exact .inl hrenewal | cases hrenewal

/-- A destroy call in flight was in flight before, or has just been issued. -/
theorem Move.calling {s : Surroundings} {actor : Actor} {c c' : Context} {events : List Event}
    (h : Move s actor c events c') {call : Pending Unit}
    (hdestruction : c'.destruction = .calling call) :
    c.destruction = .calling call ∨ .issued call.number (.destroy c.session.id) ∈ events := by
  cases h with
  | issueDestroy _ =>
      cases hdestruction
      exact .inr List.mem_cons_self
  | _ => first | exact .inl hdestruction | cases hdestruction

/-- Each move keeps the counters in agreement. -/
theorem Books.balanced_move {s : Surroundings} {actor : Actor} {c c' : Context}
    {events : List Event} {log : Log} (h : c.Books log) (hs : c.Signalled)
    (hteardown : c.Teardown log) (hnumbers : log.numbers.Nodup)
    (hmove : Move s actor c events c') : (log ++ events.map (s.now, ·) : Log).Balanced := by
  refine h.balanced.append ?_
  -- a renewal that is settled was made, and it is seen whether the context is still live
  have hrenewal : ∀ {tick expiry call}, c.renewal = .renewing tick expiry call →
      log.call? call.number = some (.renew c.session.id) := by
    intro tick expiry call hrenewal
    obtain ⟨t, hmem⟩ := h.renewing tick expiry call hrenewal
    exact Log.call?_of_mem hnumbers hmem
  have hlive : c.error = none → log.endings.isEmpty = true := by
    intro hlive
    rw [hteardown.endings, hlive]
    rfl
  cases hmove with
  | interrupted hr hdone =>
      have hended : log.endings.isEmpty = false := by
        obtain ⟨e, he⟩ := Option.isSome_iff_exists.mp (hs.symm.trans hdone)
        rw [hteardown.endings, he]
        rfl
      rw [Log.settlementsAfter_first rfl (hrenewal hr) (by simp), hended]
      rfl
  | renewed hr hl _ _ =>
      rw [Log.settlementsAfter_first rfl (hrenewal hr) (by simp [Event.settles?]), hlive hl]
      rfl
  | missed hr hl hfailed _ =>
      cases hfailed <;>
        (rw [Log.settlementsAfter_first rfl (hrenewal hr) (by simp [Event.settles?]), hlive hl]
         rfl)
  | expired hr hl hfailed _ =>
      cases hfailed <;>
        (rw [Log.settlementsAfter_first rfl (hrenewal hr) (by simp [Event.settles?]), hlive hl]
         rfl)
  | destroyOver hd hover =>
      obtain ⟨t, hmem⟩ := h.calling _ hd
      have hcall := Log.call?_of_mem hnumbers hmem
      cases hover <;>
        (rw [Log.settlementsAfter_first rfl hcall (by simp [Event.settles?])]; rfl)
  | work _ hwork =>
      have hnone : ∀ x ∈ events.map (s.now, ·), x.2.settles? = none :=
        List.forall_mem_map.mpr fun e he => Event.settles?_of_isWork (hwork e he)
      rw [Log.metrics_of_isWork hwork, Log.settlementsAfter_eq_nil hnone]
      rfl
  | _ => rfl

theorem Books.move {s : Surroundings} {actor : Actor} {c c' : Context} {events : List Event}
    {log : Log} (h : c.Books log) (hs : c.Signalled) (hteardown : c.Teardown log)
    (hnumbers : log.numbers.Nodup) (hmove : Move s actor c events c') :
    c'.Books (log ++ events.map (s.now, ·)) := by
  have hnew : ∀ {e}, e ∈ events → (s.now, e) ∈ log ++ events.map (s.now, ·) :=
    fun he => List.mem_append_right _ (List.mem_map.mpr ⟨_, he, rfl⟩)
  refine ⟨fun tick expiry call hrenewal => ?_, fun call hdestruction => ?_,
    h.balanced_move hs hteardown hnumbers hmove⟩
  · rw [hmove.frame.1]
    rcases hmove.renewing hrenewal with hbefore | hissued
    · obtain ⟨t, hmem⟩ := h.renewing tick expiry call hbefore
      exact ⟨t, List.mem_append_left _ hmem⟩
    · exact ⟨s.now, hnew hissued⟩
  · rw [hmove.frame.1]
    rcases hmove.calling hdestruction with hbefore | hissued
    · obtain ⟨t, hmem⟩ := h.calling call hbefore
      exact ⟨t, List.mem_append_left _ hmem⟩
    · exact ⟨s.now, hnew hissued⟩

/-- The numbers of a log are distinct as long as those of a longer one are, so this may be
assumed at every step. -/
theorem books_invariant : Invariant fun _ c log _ =>
    c.Signalled ∧ c.Teardown log ∧ (log.numbers.Nodup → c.Books log) where
  start now requested session id agent parent log hresolve hopening := by
    refine ⟨rfl, teardown_invariant.start now requested session id agent parent log hresolve
      hopening, fun _ => ⟨?_, ?_, ?_⟩⟩
    · exact fun _ _ _ hrenewal => absurd hrenewal (by simp [Context.start])
    · exact fun _ hdestruction => absurd hdestruction (by simp [Context.start])
    · exact Log.balanced_of_isOpening hopening
  move s actor c c' events log answers h hmove := by
    obtain ⟨hs, hteardown, hbooks⟩ := h
    refine ⟨hmove.signalled hs, hteardown.move hmove, fun hnumbers => ?_⟩
    rw [Log.numbers_append] at hnumbers
    have hbefore := (List.nodup_append.mp hnumbers).1
    exact (hbooks hbefore).move hs hteardown hbefore hmove
  pass _ _ _ _ _ _ h _ := h

end Context

/-- **Calls are counted when they are over.** In every reachable world the counters of
renewals and of destroy attempts agree, for each attempt, with the calls that are over. -/
theorem World.Reachable.log_balanced {w : World α} (hw : w.Reachable) (i : Nat) :
    (w.log i).Balanced := by
  cases hc : w.context? i with
  | none => exact Log.balanced_of_isOpening (hw.grounded.opening i hc)
  | some c =>
      obtain ⟨_, _, hbooks⟩ := Context.books_invariant.holds hw hc
      exact (hbooks (hw.log_numbers_nodup i)).balanced

end Tenure.Lifecycle
