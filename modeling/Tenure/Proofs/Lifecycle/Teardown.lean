import Tenure.Proofs.Lifecycle.Invariant

/-!
# The session is destroyed once

Five parties race to end a context: callers that cancel or close it, the parent
scope, the owner that gives it up, and a renewal that fails too late. Whoever is
first records the terminal error and queues the one destroy attempt; nobody else
touches the attempt, so it makes its call whatever becomes of that party.

* `Context.Move.atTheEnd` — what a move has to do with the end: it ends the context,
  it makes or settles the destroy call, or it leaves both alone;
* `Context.Teardown` — the invariant that ties the terminal error, the destroy
  attempt and the log together;
* `teardown_exactly_once` — at most one destroy call in every reachable world,
  exactly one wherever the context has ended and nothing is left to be done.
-/

namespace Tenure.Lifecycle

variable {α : Type}

/-! ## Moves and the end -/

namespace Context

/-- What a move has to do with the end of the context. -/
inductive AtTheEnd (c : Context) (events : List Event) (c' : Context) : Prop
  | apart (herror : c'.error = c.error) (hdestruction : c'.destruction = c.destruction)
      (hdestroyed : c'.destroyed = c.destroyed)
      (hendings : events.filterMap Event.ending? = [])
      (hcalls : events.filterMap Event.destroyCall? = [])
  | ends (e : SessionError) (hlive : c.error = none) (herror : c'.error = some e)
      (hdestruction : c'.destruction = .queued) (hdestroyed : c'.destroyed = c.destroyed)
      (hendings : events.filterMap Event.ending? = [e])
      (hcalls : events.filterMap Event.destroyCall? = [])
  | calls (call : Pending Unit) (hqueued : c.destruction = .queued)
      (herror : c'.error = c.error) (hdestruction : c'.destruction = .calling call)
      (hdestroyed : c'.destroyed = c.destroyed)
      (hendings : events.filterMap Event.ending? = [])
      (hcalls : events.filterMap Event.destroyCall? = [c.session.id])
  | settles (call : Pending Unit) (hcalling : c.destruction = .calling call)
      (herror : c'.error = c.error) (hdestruction : c'.destruction = .finished)
      (hdestroyed : c'.destroyed = true)
      (hendings : events.filterMap Event.ending? = [])
      (hcalls : events.filterMap Event.destroyCall? = [])

theorem filterMap_ending?_of_isWork {events : List Event}
    (h : ∀ e ∈ events, e.isWork = true) : events.filterMap Event.ending? = [] := by
  refine List.filterMap_eq_nil_iff.mpr fun e he => ?_
  have hwork := h e he
  cases e <;> first | rfl | exact absurd hwork (by simp [Event.isWork])

theorem filterMap_destroyCall?_of_isWork {events : List Event}
    (h : ∀ e ∈ events, e.isWork = true) : events.filterMap Event.destroyCall? = [] := by
  refine List.filterMap_eq_nil_iff.mpr fun e he => ?_
  have hwork := h e he
  cases e <;> first | rfl | exact absurd hwork (by simp [Event.isWork])

/-- Every move ends the context, makes the destroy call, settles it, or leaves the end
alone. -/
theorem Move.atTheEnd {s : Surroundings} {actor : Actor} {c c' : Context}
    {events : List Event} (h : Move s actor c events c') : c.AtTheEnd events c' := by
  cases h with
  | leave _ _ => exact .apart rfl rfl rfl rfl rfl
  | orphaned _ hlive _ => exact .ends _ hlive rfl rfl rfl rfl rfl
  | givenUp _ hlive _ => exact .ends _ hlive rfl rfl rfl rfl rfl
  | issueRenewal _ _ _ _ _ => exact .apart rfl rfl rfl rfl rfl
  | interrupted _ _ => exact .apart rfl rfl rfl rfl rfl
  | renewed _ _ _ _ => exact .apart rfl rfl rfl rfl rfl
  | missed _ _ hfailed _ => cases hfailed <;> exact .apart rfl rfl rfl rfl rfl
  | expired _ hlive hfailed _ => cases hfailed <;> exact .ends _ hlive rfl rfl rfl rfl rfl
  | tornDown _ _ => exact .apart rfl rfl rfl rfl rfl
  | issueDestroy hqueued => exact .calls _ hqueued rfl rfl rfl rfl rfl
  | destroyOver hcalling hover => cases hover <;> exact .settles _ hcalling rfl rfl rfl rfl rfl
  | cancel _ hlive => exact .ends _ hlive rfl rfl rfl rfl rfl
  | drop => exact .apart rfl rfl rfl rfl rfl
  | work _ hwork =>
      exact .apart rfl rfl rfl (filterMap_ending?_of_isWork hwork)
        (filterMap_destroyCall?_of_isWork hwork)
  | handOutToken => exact .apart rfl rfl rfl rfl rfl
  | cancelToken k => exact .apart rfl rfl rfl rfl rfl

end Context

theorem Event.eq_ending_of_ending? {x : Event} {e : SessionError} (h : x.ending? = some e) :
    x = .ending e := by
  cases x with
  | ending reason => rw [Option.some.inj h]
  | _ => exact absurd h (by simp [ending?])

namespace Log

theorem endings_map (now : Nat) (events : List Event) :
    endings (events.map (now, ·)) = events.filterMap Event.ending? := by
  unfold endings
  rw [List.filterMap_map]
  rfl

theorem destroyCalls_map (now : Nat) (events : List Event) :
    destroyCalls (events.map (now, ·)) = events.filterMap Event.destroyCall? := by
  unfold destroyCalls
  rw [List.filterMap_map]
  rfl

/-- No end comes after a destroy call. -/
def EndsFirst (log : Log) : Prop :=
  log.Pairwise fun x y => x.2.destroyCall? = none ∨ y.2.ending? = none

theorem EndsFirst.append {log : Log} (h : log.EndsFirst) (now : Nat) {events : List Event}
    (hnew : events.filterMap Event.destroyCall? = [] ∨ events.filterMap Event.ending? = [])
    (hold : log.destroyCalls = [] ∨ events.filterMap Event.ending? = []) :
    (log ++ events.map (now, ·) : Log).EndsFirst := by
  unfold EndsFirst
  rw [List.pairwise_append]
  refine ⟨h, ?_, ?_⟩
  · rw [List.pairwise_map]
    rcases hnew with hnone | hnone
    · exact List.pairwise_of_forall_mem_list fun x hx _ _ =>
        .inl (List.filterMap_eq_nil_iff.mp hnone x hx)
    · exact List.pairwise_of_forall_mem_list fun _ _ y hy =>
        .inr (List.filterMap_eq_nil_iff.mp hnone y hy)
  · intro x hx y hy
    obtain ⟨y', hy', rfl⟩ := List.mem_map.mp hy
    rcases hold with hnone | hnone
    · exact .inl (List.filterMap_eq_nil_iff.mp hnone x hx)
    · exact .inr (List.filterMap_eq_nil_iff.mp hnone y' hy')

/-- The end that a log has comes before each of its destroy calls. -/
theorem EndsFirst.ending_mem {log : Log} (h : log.EndsFirst) {e : SessionError}
    (hendings : log.endings = [e]) {before after : Log} {t n : Nat} {id : String}
    (hlog : log = before ++ (t, .issued n (.destroy id)) :: after) :
    ∃ x ∈ before, x.2 = .ending e := by
  have hmem : e ∈ log.endings := by rw [hendings]; exact List.mem_singleton_self e
  obtain ⟨⟨t', x⟩, hx, hreason⟩ := List.mem_filterMap.mp hmem
  obtain rfl := Event.eq_ending_of_ending? hreason
  rw [hlog] at hx
  rcases List.mem_append.mp hx with hbefore | hrest
  · exact ⟨_, hbefore, rfl⟩
  rcases List.mem_cons.mp hrest with hsame | hafter
  · exact absurd (congrArg Prod.snd hsame) (by simp)
  -- an end after the call would be out of order
  · unfold EndsFirst at h
    rw [hlog, List.pairwise_append, List.pairwise_cons] at h
    exact absurd (h.2.1.1 _ hafter) (by simp [Event.destroyCall?, Event.ending?])

end Log

/-! ## The invariant -/

namespace Context

/-- The one destroy attempt of a context that has ended: it has yet to make its call, its
call is in flight, or it is over. -/
inductive DestroyAttempt (c : Context) (calls : List String) : Prop
  | queued (hdestruction : c.destruction = .queued) (hcalls : calls = [])
      (hdestroyed : c.destroyed = false)
  | calling (call : Pending Unit) (hdestruction : c.destruction = .calling call)
      (hcalls : calls = [c.session.id]) (hdestroyed : c.destroyed = false)
  | finished (hdestruction : c.destruction = .finished) (hcalls : calls = [c.session.id])
      (hdestroyed : c.destroyed = true)

/-- There is no destroy attempt. -/
structure Untouched (c : Context) (calls : List String) : Prop where
  destruction : c.destruction = .idle
  calls : calls = []
  destroyed : c.destroyed = false

/-- What ties the terminal error, the destroy attempt and the log together. -/
structure Teardown (c : Context) (log : Log) : Prop where
  endings : log.endings = c.error.toList
  endsFirst : log.EndsFirst
  live : c.error = none → c.Untouched log.destroyCalls
  attempted : c.error.isSome = true → c.DestroyAttempt log.destroyCalls

theorem Untouched.congr {c c' : Context} {calls : List String} (h : c.Untouched calls)
    (hdestruction : c'.destruction = c.destruction) (hdestroyed : c'.destroyed = c.destroyed) :
    c'.Untouched calls :=
  ⟨hdestruction.trans h.destruction, h.calls, hdestroyed.trans h.destroyed⟩

theorem DestroyAttempt.congr {c c' : Context} {calls : List String}
    (h : c.DestroyAttempt calls) (hsession : c'.session = c.session)
    (hdestruction : c'.destruction = c.destruction) (hdestroyed : c'.destroyed = c.destroyed) :
    c'.DestroyAttempt calls := by
  cases h with
  | queued h₁ h₂ h₃ => exact .queued (hdestruction.trans h₁) h₂ (hdestroyed.trans h₃)
  | calling call h₁ h₂ h₃ =>
      exact .calling call (hdestruction.trans h₁) (hsession ▸ h₂) (hdestroyed.trans h₃)
  | finished h₁ h₂ h₃ =>
      exact .finished (hdestruction.trans h₁) (hsession ▸ h₂) (hdestroyed.trans h₃)

/-- A destroy attempt is that of a context that has ended. -/
theorem Teardown.ended {c : Context} {log : Log} (h : c.Teardown log)
    (hattempt : c.destruction ≠ .idle) : ∃ e, c.error = some e := by
  cases herror : c.error with
  | none => exact absurd (h.live herror).destruction hattempt
  | some e => exact ⟨e, rfl⟩

theorem Teardown.move {s : Surroundings} {actor : Actor} {c c' : Context}
    {events : List Event} {log : Log} (h : c.Teardown log) (hmove : Move s actor c events c') :
    c'.Teardown (log ++ events.map (s.now, ·)) := by
  have hsession := hmove.frame.1
  cases hmove.atTheEnd with
  | apart herror hdestruction hdestroyed hendings hcalls =>
      have hsame : (log ++ events.map (s.now, ·) : Log).destroyCalls = log.destroyCalls := by
        rw [Log.destroyCalls_append, Log.destroyCalls_map, hcalls, List.append_nil]
      refine ⟨?_, h.endsFirst.append s.now (.inl hcalls) (.inr hendings), ?_, ?_⟩
      · rw [Log.endings_append, Log.endings_map, hendings, List.append_nil, herror, h.endings]
      · rw [hsame, herror]
        exact fun hlive => (h.live hlive).congr hdestruction hdestroyed
      · rw [hsame, herror]
        exact fun hover => (h.attempted hover).congr hsession hdestruction hdestroyed
  | ends e hlive herror hdestruction hdestroyed hendings hcalls =>
      -- a live context has no destroy attempt, so this one is the first
      obtain ⟨_, hnone, hbefore⟩ := h.live hlive
      refine ⟨?_, h.endsFirst.append s.now (.inl hcalls) (.inl hnone), ?_, fun _ => ?_⟩
      · rw [Log.endings_append, Log.endings_map, hendings, h.endings, hlive, herror]
        rfl
      · rw [herror]
        exact fun hno => absurd hno (by simp)
      · refine .queued hdestruction ?_ (hdestroyed.trans hbefore)
        rw [Log.destroyCalls_append, Log.destroyCalls_map, hcalls, hnone]
        rfl
  | calls call hqueued herror hdestruction hdestroyed hendings hcalls =>
      obtain ⟨e, he⟩ := h.ended (by rw [hqueued]; simp)
      refine ⟨?_, h.endsFirst.append s.now (.inr hendings) (.inr hendings), ?_, fun _ => ?_⟩
      · rw [Log.endings_append, Log.endings_map, hendings, List.append_nil, herror, h.endings]
      · rw [herror, he]
        exact fun hno => absurd hno (by simp)
      · -- the attempt was waiting, so no call had been made
        cases h.attempted (by rw [he]; rfl) with
        | queued _ hnone hbefore =>
            refine .calling call hdestruction ?_ (hdestroyed.trans hbefore)
            rw [Log.destroyCalls_append, Log.destroyCalls_map, hcalls, hnone, hsession]
            rfl
        | calling _ hother _ _ => exact absurd (hqueued.symm.trans hother) (by simp)
        | finished hother _ _ => exact absurd (hqueued.symm.trans hother) (by simp)
  | settles call hcalling herror hdestruction hdestroyed hendings hcalls =>
      obtain ⟨e, he⟩ := h.ended (by rw [hcalling]; simp)
      refine ⟨?_, h.endsFirst.append s.now (.inl hcalls) (.inr hendings), ?_, fun _ => ?_⟩
      · rw [Log.endings_append, Log.endings_map, hendings, List.append_nil, herror, h.endings]
      · rw [herror, he]
        exact fun hno => absurd hno (by simp)
      -- the call was in flight, so it is the one that the log shows
      · cases h.attempted (by rw [he]; rfl) with
        | queued hother _ _ => exact absurd (hcalling.symm.trans hother) (by simp)
        | calling _ _ hone _ =>
            refine .finished hdestruction ?_ hdestroyed
            rw [Log.destroyCalls_append, Log.destroyCalls_map, hcalls, hone, hsession]
            rfl
        | finished hother _ _ => exact absurd (hcalling.symm.trans hother) (by simp)

theorem endings_of_isOpening {log : Log} (h : ∀ e ∈ log, e.2.isOpening = true) :
    log.endings = [] := by
  refine List.filterMap_eq_nil_iff.mpr fun ⟨t, e⟩ he => ?_
  have hopening := h _ he
  cases e <;> first | rfl | exact absurd hopening (by simp [Event.isOpening])

theorem destroyCalls_of_isOpening {log : Log} (h : ∀ e ∈ log, e.2.isOpening = true) :
    log.destroyCalls = [] := by
  refine List.filterMap_eq_nil_iff.mpr fun ⟨t, e⟩ he => ?_
  have hopening := h _ he
  cases e with
  | issued n call => cases call <;> first | rfl | exact absurd hopening (by simp [Event.isOpening])
  | _ => rfl

theorem teardown_invariant : Invariant fun _ c log _ => c.Teardown log where
  start now requested session id agent parent log _ hopening := by
    have hcalls := destroyCalls_of_isOpening hopening
    refine ⟨endings_of_isOpening hopening, ?_, fun _ => ⟨rfl, hcalls, rfl⟩, ?_⟩
    · exact List.pairwise_of_forall_mem_list fun x hx _ _ =>
        .inl (List.filterMap_eq_nil_iff.mp hcalls x hx)
    · exact fun hover => absurd hover (by simp [Context.start])
  move s actor c c' events log _ h hmove := h.move hmove
  pass _ _ _ _ _ _ h _ := h

end Context

namespace World

open Context

/-- Where no process has anything to do and none ever will by itself, the destroy attempt
of a context that has ended is over. -/
theorem finished_of_still {w : World α} {i : Nat} {c : Context} (hc : w.context? i = some c)
    (hquiet : w.isQuiet = true) (hwakes : w.wakes = []) {calls : List String}
    (h : c.DestroyAttempt calls) : calls = [c.session.id] ∧ c.destroyed = true := by
  have hprocess := destruction_mem_processes (lt_of_context? hc)
  cases h with
  | queued hdestruction _ _ =>
      have hready : w.isReady (.destruction i) = true := by
        simp [isReady, hc, destructionReady, hdestruction]
      exact absurd ((not_ready_of_quiet hquiet hprocess).symm.trans hready) (by simp)
  | calling call hdestruction _ _ =>
      have hwake : w.wake (.destruction i) = some call.wake := by
        simp [wake, hc, destructionWake, hdestruction]
      have hmem := wake_mem_wakes hprocess hwake
      rw [hwakes] at hmem
      exact absurd hmem List.not_mem_nil
  | finished _ hcalls hdestroyed => exact ⟨hcalls, hdestroyed⟩

/-- **Teardown happens exactly once.** In every reachable world the session of a context
has been destroyed at most once, and never before the terminal error was recorded. From
then on there is exactly one destroy attempt, and where no process can take a turn and no
timer is pending the attempt has made its one call and `destroyed` is signalled. -/
theorem teardown_exactly_once {w : World α} (hw : w.Reachable) {i : Nat} {c : Context}
    (hc : w.context? i = some c) :
    (w.log i).destroyCalls.length ≤ 1 ∧
    (∀ id ∈ (w.log i).destroyCalls, id = c.session.id) ∧
    (∀ before after n id, w.eventsOf i = before ++ .issued n (.destroy id) :: after →
      ∃ e, .ending e ∈ before ∧ c.error = some e) ∧
    (w.log i).endings = c.error.toList ∧
    (c.error = none → c.Untouched (w.log i).destroyCalls) ∧
    (c.error.isSome = true → c.DestroyAttempt (w.log i).destroyCalls) ∧
    (c.error.isSome = true → w.isQuiet = true → w.wakes = [] →
      (w.log i).destroyCalls = [c.session.id] ∧ c.destroyed = true) := by
  have hinv := teardown_invariant.holds hw hc
  have hcalls : (w.log i).destroyCalls = [] ∨ (w.log i).destroyCalls = [c.session.id] := by
    cases herror : c.error with
    | none => exact .inl (hinv.live herror).calls
    | some e =>
        cases hinv.attempted (by rw [herror]; rfl) with
        | queued _ h _ => exact .inl h
        | calling _ _ h _ => exact .inr h
        | finished _ h _ => exact .inr h
  refine ⟨?_, ?_, ?_, hinv.endings, hinv.live, hinv.attempted, fun hover hquiet hwakes =>
    finished_of_still hc hquiet hwakes (hinv.attempted hover)⟩
  · rcases hcalls with h | h <;> rw [h] <;> simp
  · rcases hcalls with h | h <;> rw [h] <;> simp
  · intro before after n id hevents
    rw [eventsOf_eq] at hevents
    obtain ⟨first, rest, hlog, rfl, hrest⟩ := List.map_eq_append_iff.mp hevents
    obtain ⟨⟨t, x⟩, last, rfl, rfl, rfl⟩ := List.map_eq_cons_iff.mp hrest
    -- a call that was made shows that the context has ended, and its end is the only one
    have hmade : id ∈ (w.log i).destroyCalls := by
      rw [hlog]
      simp [Log.destroyCalls, Event.destroyCall?]
    obtain ⟨e, he⟩ : ∃ e, c.error = some e := by
      cases herror : c.error with
      | none =>
          rw [(hinv.live herror).calls] at hmade
          exact absurd hmade List.not_mem_nil
      | some e => exact ⟨e, rfl⟩
    obtain ⟨y, hy, hending⟩ := hinv.endsFirst.ending_mem (by rw [hinv.endings, he]; rfl) hlog
    exact ⟨e, List.mem_map.mpr ⟨y, hy, hending⟩, he⟩

/-- Two callers race to cancel a context while its owner and its parent scope let go of it.
The first one is given up while it waits, and the destroy call hangs. -/
def contested : World Unit :=
  (untouched [.scripted "s-1" (fun _ => ⟨some 0, .ok ()⟩) ⟨none, .ok ()⟩] {} 0).run
    [.begin 0 0 { lockDelay := some (.ofMillis 20), ttl := some (.ofMillis 300) },
      .poll (.opening 0), .call 0 .cancel, .call 0 .cancel, .poll (.caller 0),
      .poll (.caller 1), .drop 0, .cancelScope 0, .abandon 0, .poll (.destruction 0),
      .poll (.renewal 0), .advance 20, .poll (.destruction 0), .poll (.caller 1)]

theorem teardown_exactly_once_of_contested :
    ∃ c, contested.context? 0 = some c ∧ c.error.isSome = true ∧
      contested.isQuiet = true ∧ contested.wakes = [] ∧
      (contested.log 0).destroyCalls = [c.session.id] ∧ c.destroyed = true := by
  have hc : contested.context? 0 = some ((contested.context? 0).get (by decide +kernel)) :=
    (Option.some_get _).symm
  have hended : ((contested.context? 0).get (by decide +kernel)).error.isSome = true := by
    decide +kernel
  have hquiet : contested.isQuiet = true := by decide +kernel
  have hwakes : contested.wakes = [] := by decide +kernel
  exact ⟨_, hc, hended, hquiet, hwakes,
    (teardown_exactly_once (reachable_run _ _ _ _) hc).2.2.2.2.2.2 hended hquiet hwakes⟩

end World

end Tenure.Lifecycle
