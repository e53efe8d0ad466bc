import Mathlib.Data.List.Induction
import Tenure.Proofs.Lifecycle.Tally

/-!
# The metrics are a sum over the attempts

Every event counts for itself, so the metrics of a world are what the events of one
attempt count for, added to what all the others count for. What an attempt has done to
the counters can be read off its own log.

* `World.Reachable.metrics_split` — the sum;
* `Log.active_eq` — the gauge counts sessions that were created and have not ended.
-/

namespace Tenure.Lifecycle

variable {α : Type}

namespace Metrics

/-- What is counted on two sides. -/
def plus (m n : Metrics) : Metrics :=
  { active := m.active + n.active
    createsOk := m.createsOk + n.createsOk
    createsError := m.createsError + n.createsError
    renewalsOk := m.renewalsOk + n.renewalsOk
    renewalsMissed := m.renewalsMissed + n.renewalsMissed
    renewalsExpired := m.renewalsExpired + n.renewalsExpired
    teardownsCancelled := m.teardownsCancelled + n.teardownsCancelled
    teardownsParentCancelled := m.teardownsParentCancelled + n.teardownsParentCancelled
    teardownsRenewFailed := m.teardownsRenewFailed + n.teardownsRenewFailed
    destroyFailures := m.destroyFailures + n.destroyFailures }

instance : Add Metrics := ⟨plus⟩

theorem add_eq (m n : Metrics) : m + n = m.plus n := rfl

theorem add_comm (m n : Metrics) : m + n = n + m := by
  simp only [add_eq, plus, Nat.add_comm, Int.add_comm]

/-- An event counts on the side on which it is recorded. -/
theorem record_add_left (m n : Metrics) (e : Event) : (m + n).record e = m.record e + n := by
  cases e with
  | ending reason =>
      cases reason <;> simp only [record, countEnding, add_eq, plus, Nat.add_right_comm, mk.injEq,
        and_true] <;> omega
  | created session => simp only [record, add_eq, plus, Nat.add_right_comm, Int.add_right_comm]
  | _ => simp only [record, add_eq, plus, Nat.add_right_comm]

theorem record_add_right (m n : Metrics) (e : Event) : (m + n).record e = m + n.record e := by
  rw [add_comm m n, record_add_left, add_comm]

end Metrics

namespace World

theorem countEvents_concat (events : List Event) (e : Event) :
    countEvents (events ++ [e]) = (countEvents events).record e := List.foldl_concat ..

/-- Counting some of the entries and the others apart makes no difference. -/
theorem countEvents_split (entries : List Entry) (p : Entry → Bool) :
    countEvents (entries.map (·.event)) =
      countEvents ((entries.filter (!p ·)).map (·.event)) +
        countEvents ((entries.filter p).map (·.event)) := by
  induction entries using List.reverseRecOn with
  | nil => rfl
  | append_singleton entries x ih =>
      rw [List.map_append, List.filter_append, List.filter_append]
      show countEvents (_ ++ [x.event]) = _
      rw [countEvents_concat, ih]
      by_cases hx : p x = true
      · rw [Metrics.record_add_right, ← countEvents_concat]
        simp [hx]
      · rw [Metrics.record_add_left, ← countEvents_concat]
        simp [hx]

/-- What the events of all attempts but `i` count for. -/
def metricsBeside (w : World α) (i : Nat) : Metrics :=
  countEvents ((w.journal.filter (!·.attempt == i)).map (·.event))

theorem log_metrics_eq (w : World α) (i : Nat) :
    countEvents ((w.journal.filter (·.attempt == i)).map (·.event)) = (w.log i).metrics := by
  unfold log Log.metrics countEvents
  rw [List.foldl_map, List.foldl_map]

/-- **The share of an attempt** in the metrics is what its own events count for. -/
theorem Reachable.metrics_split {w : World α} (hw : w.Reachable) (i : Nat) :
    w.metrics = w.metricsBeside i + (w.log i).metrics := by
  rw [← log_metrics_eq]
  exact hw.metricsKept.trans (countEvents_split w.journal (·.attempt == i))

end World

/-- The gauge counts what was created and has not ended. -/
theorem Log.active_eq (log : Log) :
    log.metrics.active = log.metrics.createsOk - log.endings.length := by
  induction log using List.reverseRecOn with
  | nil => rfl
  | append_singleton log x ih =>
      obtain ⟨t, e⟩ := x
      rw [metrics_append, endings_append]
      show ((Log.metrics log).record e).active = _
      cases e with
      | ending reason =>
          cases reason <;> simp only [Metrics.record, Metrics.countEnding, List.foldl_cons,
            List.foldl_nil, endings, List.filterMap_cons, Event.ending?, List.filterMap_nil,
            List.length_append, List.length_cons, List.length_nil] at ih ⊢ <;> omega
      | created session =>
          simp only [Metrics.record, List.foldl_cons, List.foldl_nil, endings,
            List.filterMap_cons, Event.ending?, List.filterMap_nil, List.append_nil] at ih ⊢
          omega
      | _ => simpa [Metrics.record, endings, Event.ending?] using ih

end Tenure.Lifecycle
