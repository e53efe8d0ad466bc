import Tenure.Proofs.Lifecycle.Renewals

/-!
# Renewals do not overlap

A renewal is in flight from the moment it is issued until it is answered or given
up. The renewal task has at most one call of its own in flight, and the log bears
this out: at no time are two renewals of one context open.

* `Context.OneAtATime` — the invariant;
* `World.Reachable.renewals_apart` — it holds of every context.
-/

namespace Tenure.Lifecycle

variable {α : Type}

/-! ## Open calls -/

namespace Log

/-- An event that issues no renewal opens no call. -/
theorem noteOpen_sublist (calls : List Nat) {e : Nat × Event}
    (h : e.2.renewCall? = none) : List.Sublist (noteOpen calls e) calls := by
  obtain ⟨t, event⟩ := e
  cases event with
  | issued n call =>
      cases call with
      | renew id => exact absurd h (by simp [Event.renewCall?])
      | _ => exact List.Sublist.refl calls
  | answered n ok => exact List.erase_sublist
  | abandoned n => exact List.erase_sublist
  | _ => exact List.Sublist.refl calls

theorem renewalsInFlight_sublist (log : Log) {more : Log}
    (h : ∀ x ∈ more, x.2.renewCall? = none) :
    List.Sublist (log ++ more : Log).renewalsInFlight log.renewalsInFlight := by
  rw [renewalsInFlight_append]
  induction more generalizing log with
  | nil => exact List.Sublist.refl _
  | cons x rest ih =>
      have hfirst := noteOpen_sublist log.renewalsInFlight (h x List.mem_cons_self)
      have hrest := ih (log ++ [x]) fun y hy => h y (List.mem_cons_of_mem _ hy)
      rw [renewalsInFlight_append] at hrest
      exact hrest.trans hfirst

end Log

/-- A call that is over is not open any more. -/
theorem erase_of_sublist_singleton {calls : List Nat} {n : Nat}
    (h : List.Sublist calls [n]) : calls.erase n = [] := by
  rcases List.sublist_singleton.mp h with rfl | rfl
  · rfl
  · exact List.erase_cons_head ..

/-! ## The invariant -/

namespace Context

/-- At most one renewal is open, and while the renewal task goes on it is the one that the
task has in flight. -/
structure OneAtATime (c : Context) (log : Log) : Prop where
  le : log.renewalsInFlight.length ≤ 1
  inFlight : c.renewal.isOver = false →
    List.Sublist log.renewalsInFlight (c.renewal.call?.map (·.number)).toList

namespace OneAtATime

variable {c c' : Context} {log : Log}

/-- What tells of no renewal that is issued opens none. -/
theorem apart (h : c.OneAtATime log) {events : List Event} (hapart : c.Apart events c')
    (now : Nat) : c'.OneAtATime (log ++ events.map (now, ·)) := by
  have hnone : ∀ x ∈ events.map (now, ·), x.2.renewCall? = none :=
    List.forall_mem_map.mpr fun e he =>
      Event.renewCall?_of_not_isMark (Event.isMark_of_not_isRenewal (hapart.events e he))
  have hfewer := Log.renewalsInFlight_sublist log hnone
  refine ⟨Nat.le_trans hfewer.length_le h.le, fun hgoing => ?_⟩
  -- if the task goes on, it has the same call in flight as before
  rcases hapart.renewal with hsame | ⟨hover, _⟩
  · rw [hsame] at hgoing ⊢
    exact hfewer.trans (h.inFlight hgoing)
  · rw [hgoing] at hover
    exact absurd hover Bool.false_ne_true

/-- A renewal that is over leaves none open. -/
theorem settle (h : c.OneAtATime log) {tick expiry now : Nat} {call : Pending Unit}
    (hrenewal : c.renewal = .renewing tick expiry call) {how : Event}
    (hhow : Log.noteOpen log.renewalsInFlight (now, how) =
      log.renewalsInFlight.erase call.number) {more : List Event}
    (hmore : ∀ e ∈ more, e.renewCall? = none) :
    (log ++ (how :: more).map (now, ·) : Log).renewalsInFlight = [] := by
  have hopen : List.Sublist log.renewalsInFlight [call.number] := by
    have hcall := h.inFlight (by rw [hrenewal]; rfl)
    rwa [hrenewal] at hcall
  have hover : (log ++ [(now, how)] : Log).renewalsInFlight = [] := by
    rw [Log.renewalsInFlight_append]
    exact hhow.trans (erase_of_sublist_singleton hopen)
  have hnone : ∀ x ∈ more.map (now, ·), x.2.renewCall? = none := List.forall_mem_map.mpr hmore
  have hrest := Log.renewalsInFlight_sublist (log ++ [(now, how)]) hnone
  rw [hover, List.append_assoc] at hrest
  exact List.sublist_nil.mp hrest

theorem noteOpen_failed {call : Pending Unit} {now : Nat} {period : Duration}
    {cause : ClientError} {how : Event} (h : call.Failed now period cause how)
    (calls : List Nat) : Log.noteOpen calls (now, how) = calls.erase call.number := by
  cases h <;> rfl

theorem of_none (c : Context) (h : log.renewalsInFlight = []) : c.OneAtATime log :=
  ⟨by simp [h], fun _ => by rw [h]; exact List.nil_sublist _⟩

theorem move (h : c.OneAtATime log) {s : Surroundings} {actor : Actor} {events : List Event}
    (hmove : Move s actor c events c') : c'.OneAtATime (log ++ events.map (s.now, ·)) := by
  cases hmove.atRenewal with
  | apart hapart => exact h.apart hapart s.now
  | issued hrenewal _ _ =>
      -- a task that waits for its tick has no call open
      have hnone : log.renewalsInFlight = [] := by
        have hcalls := h.inFlight (by rw [hrenewal]; rfl)
        rw [hrenewal] at hcalls
        exact List.sublist_nil.mp hcalls
      have hone : (log ++ [(s.now, .issued s.number (.renew c.session.id))] :
          Log).renewalsInFlight = [s.number] := by
        rw [Log.renewalsInFlight_append, hnone]
        rfl
      exact ⟨by rw [List.map_singleton, hone]; simp,
        fun _ => by rw [List.map_singleton, hone]; exact List.Sublist.refl _⟩
  | renewed hrenewal _ _ _ =>
      exact of_none _ (h.settle hrenewal rfl (by simp [Event.renewCall?]))
  | missed hrenewal _ hfailed _ =>
      exact of_none _ (h.settle hrenewal (noteOpen_failed hfailed _)
        (by simp [Event.renewCall?]))
  | expired hrenewal _ hfailed _ =>
      exact of_none _ (h.settle hrenewal (noteOpen_failed hfailed _)
        (by simp [Event.renewCall?]))

end OneAtATime

theorem oneAtATime_invariant : Invariant fun _ c log _ => c.OneAtATime log where
  start _ _ _ _ _ _ log _ hopening := by
    refine OneAtATime.of_none _ (List.sublist_nil.mp ?_)
    exact Log.renewalsInFlight_sublist [] fun x hx =>
      Event.renewCall?_of_isOpening (hopening x hx)
  move _ _ _ _ _ _ _ h hmove := h.move hmove
  pass _ _ _ _ _ _ h _ := h

end Context

/-- **Renewals do not overlap.** Never are two renewals of a context in flight. -/
theorem World.Reachable.renewals_apart {w : World α} (hw : w.Reachable) {i : Nat}
    {c : Context} (hc : w.context? i = some c) : (w.log i).renewalsInFlight.length ≤ 1 :=
  (Context.oneAtATime_invariant.holds hw hc).le

end Tenure.Lifecycle
