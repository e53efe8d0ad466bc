import Mathlib.Data.Set.Card
import Tenure.Proofs.Balance.Services

/-!
# What load balancers keep, and what they count

A load balancer takes a service in when it is called for it, lets it go when it is told to forget
it, and is let go itself in the end. Each time it corrects a gauge that all load balancers have in
common, and the strategies that it lets go may be load balancers themselves.

* `Cache.exists_entries` — a service that is kept has one place among the entries;
* `Strategy.release_eq` — letting a strategy go takes all that it keeps off the gauge, at any depth;
* `Strategy.gauge_balance`, `Strategy.calls_balance` — what one call does to gauge and counter;
* `LoadBalancer.Upkeep.perform` — what one operation does, and `Upkeep.run` what a run does;
* `LoadBalancer.cache_in_step` — the cache, the factory, the gauge and the counter after any run.
-/

namespace Tenure

variable {γ : Type}

/-! ## Entries of a cache -/

namespace Cache

variable {σ : Type} {service : String}

/-- The services that have a state. -/
def services (c : Cache σ) : List String := c.entries.map (·.1)

/-- The states weighed and added up. -/
def total (weight : σ → Nat) (c : Cache σ) : Nat := (c.entries.map fun e => weight e.2).sum

theorem find?_eq_none_iff {c : Cache σ} : c.find? service = none ↔ service ∉ c.services := by
  unfold find? services
  rw [List.lookup_eq_none_iff, List.mem_map]
  constructor
  · rintro h ⟨e, he, rfl⟩
    exact absurd (h e he) (by simp)
  · intro h e he
    exact bne_iff_ne.mpr fun hkey => h ⟨e, he, hkey.symm⟩

theorem mem_services {c : Cache σ} {state : σ} (h : c.find? service = some state) :
    service ∈ c.services := by
  by_contra habsent
  rw [find?_eq_none_iff.mpr habsent] at h
  cases h

theorem mem_entries {c : Cache σ} {state : σ} (h : c.find? service = some state) :
    (service, state) ∈ c.entries := by
  obtain ⟨before, later, hentries, _⟩ := List.lookup_eq_some_iff.mp h
  rw [hentries]
  exact List.mem_append_right _ List.mem_cons_self

theorem services_add (c : Cache σ) (service : String) (state : σ) :
    (c.add service state).services = c.services ++ [service] := by
  unfold services add
  rw [List.map_append]
  rfl

theorem services_update (c : Cache σ) (service : String) (state : σ) :
    (c.update service state).services = c.services := by
  unfold services update
  rw [List.map_map]
  refine List.map_congr_left fun e _ => ?_
  dsimp only [Function.comp_apply]
  split
  · rename_i hkey
    exact hkey.symm
  · rfl

theorem services_erase (c : Cache σ) (service : String) :
    (c.erase service).services = c.services.filter (· != service) := by
  unfold services erase
  rw [List.filter_map]
  rfl

theorem mem_update {c : Cache σ} {state : σ} {e : String × σ}
    (h : e ∈ (c.update service state).entries) : e = (service, state) ∨ e ∈ c.entries := by
  obtain ⟨d, hd, rfl⟩ := List.mem_map.mp h
  split
  · exact .inl rfl
  · exact .inr hd

/-- A service that is kept has one place among the entries. -/
theorem exists_entries {c : Cache σ} (hnodup : c.services.Nodup) {state : σ}
    (h : c.find? service = some state) :
    ∃ before later, c.entries = before ++ (service, state) :: later ∧
      ∀ e ∈ before ++ later, e.1 ≠ service := by
  obtain ⟨before, later, hentries, _⟩ := List.lookup_eq_some_iff.mp h
  refine ⟨before, later, hentries, fun e he hkey => ?_⟩
  unfold services at hnodup
  rw [hentries, List.map_append, List.map_cons] at hnodup
  have hfresh := (List.nodup_middle.mp hnodup)
  rw [← List.map_append, List.nodup_cons] at hfresh
  exact hfresh.1 (List.mem_map.mpr ⟨e, he, hkey⟩)

theorem entries_update {c : Cache σ} {before later : List (String × σ)} {old : σ}
    (hentries : c.entries = before ++ (service, old) :: later)
    (hothers : ∀ e ∈ before ++ later, e.1 ≠ service) (state : σ) :
    (c.update service state).entries = before ++ (service, state) :: later := by
  have hsame (es : List (String × σ)) (hes : ∀ e ∈ es, e.1 ≠ service) :
      es.map (fun e => if e.1 = service then (service, state) else e) = es := by
    refine (List.map_congr_left fun e he => if_neg (hes e he)).trans (List.map_id es)
  unfold update
  dsimp only
  rw [hentries, List.map_append, List.map_cons, if_pos rfl,
    hsame before fun e he => hothers e (List.mem_append_left _ he),
    hsame later fun e he => hothers e (List.mem_append_right _ he)]

theorem entries_erase {c : Cache σ} {before later : List (String × σ)} {old : σ}
    (hentries : c.entries = before ++ (service, old) :: later)
    (hothers : ∀ e ∈ before ++ later, e.1 ≠ service) :
    (c.erase service).entries = before ++ later := by
  have hkept (es : List (String × σ)) (hes : ∀ e ∈ es, e.1 ≠ service) :
      es.filter (fun e => e.1 != service) = es :=
    List.filter_eq_self.mpr fun e he => bne_iff_ne.mpr (hes e he)
  unfold erase
  dsimp only
  rw [hentries, List.filter_append, List.filter_cons_of_neg (by simp),
    hkept before fun e he => hothers e (List.mem_append_left _ he),
    hkept later fun e he => hothers e (List.mem_append_right _ he)]

theorem total_add (weight : σ → Nat) (c : Cache σ) (service : String) (state : σ) :
    (c.add service state).total weight = c.total weight + weight state := by
  unfold total add
  rw [List.map_append, List.sum_append, List.map_singleton, List.sum_singleton]

theorem total_update (weight : σ → Nat) {c : Cache σ} (hnodup : c.services.Nodup) {old : σ}
    (h : c.find? service = some old) (state : σ) :
    (c.update service state).total weight + weight old = c.total weight + weight state := by
  obtain ⟨before, later, hentries, hothers⟩ := exists_entries hnodup h
  unfold total
  rw [entries_update hentries hothers, hentries]
  simp only [List.map_append, List.map_cons, List.sum_append, List.sum_cons]
  omega

theorem total_erase (weight : σ → Nat) {c : Cache σ} (hnodup : c.services.Nodup) {old : σ}
    (h : c.find? service = some old) :
    (c.erase service).total weight + weight old = c.total weight := by
  obtain ⟨before, later, hentries, hothers⟩ := exists_entries hnodup h
  unfold total
  rw [entries_erase hentries hothers, hentries]
  simp only [List.map_append, List.map_cons, List.sum_append, List.sum_cons]
  omega

end Cache

namespace Commons

/-- What is in common once a call is counted. -/
def called (commons : Commons γ) : Commons γ :=
  { commons with metrics := { commons.metrics with calls := commons.metrics.calls + 1 } }

/-- What is in common once a service is taken in. -/
def grown (commons : Commons γ) : Commons γ :=
  { commons with metrics := { commons.metrics with services := commons.metrics.services + 1 } }

/-- What is in common once some of what was kept is let go. -/
def shrunk (commons : Commons γ) (lost : Nat) : Commons γ :=
  { commons with metrics := { commons.metrics with services := commons.metrics.services - lost } }

end Commons

theorem Pooling.metrics_lend {β : Type} (p : Pooling) (state : p.State γ) (commons : Commons γ)
    (use : γ → β × γ) : (p.lend state commons use).2.2.metrics = commons.metrics := by
  cases p <;> rfl

/-! ## What a strategy keeps -/

namespace Strategy

/-- An entry counts once, and with it all that its strategy keeps. -/
theorem cached_perService (factory : Nat → Strategy) (cache : (perService factory).State γ) :
    (perService factory).cached cache =
      Cache.total (fun held => (factory held.1).cached held.2 + 1) cache := by
  have hfold (es : List (String × ((k : Nat) × (factory k).State γ))) (n : Nat) :
      es.foldl (fun n e => n + ((factory e.2.1).cached e.2.2 + 1)) n =
        n + (es.map fun e => (factory e.2.1).cached e.2.2 + 1).sum := by
    induction es generalizing n with
    | nil => rfl
    | cons e rest ih =>
        rw [List.foldl_cons, ih, List.map_cons, List.sum_cons, Nat.add_assoc]
  unfold Cache.total
  rw [cached, hfold, Nat.zero_add]

theorem cached_fresh (s : Strategy) : s.cached (s.fresh γ) = 0 := by
  induction s with
  | andThen first second ihFirst ihSecond =>
      unfold cached fresh
      rw [ihFirst, ihSecond]
  | _ => rfl

section

variable {factory : Nat → Strategy} {cache : (perService factory).State γ} {service : String}
  {k : Nat} {old : (factory k).State γ}

theorem cached_add (cache : (perService factory).State γ) (service : String)
    (held : (factory k).State γ) :
    (perService factory).cached (Cache.add cache service ⟨k, held⟩) =
      (perService factory).cached cache + ((factory k).cached held + 1) := by
  have htotal := Cache.total_add (fun held => (factory held.1).cached held.2 + 1) cache service
    ⟨k, held⟩
  have hafter := cached_perService factory (Cache.add cache service ⟨k, held⟩)
  have hbefore := cached_perService factory cache
  dsimp only at htotal
  omega

theorem cached_update (hnodup : (Cache.services cache).Nodup)
    (h : Cache.find? cache service = some ⟨k, old⟩) (held : (factory k).State γ) :
    (perService factory).cached (Cache.update cache service ⟨k, held⟩) + (factory k).cached old =
      (perService factory).cached cache + (factory k).cached held := by
  have htotal := Cache.total_update (fun held => (factory held.1).cached held.2 + 1) hnodup h
    ⟨k, held⟩
  have hafter := cached_perService factory (Cache.update cache service ⟨k, held⟩)
  have hbefore := cached_perService factory cache
  dsimp only at htotal
  omega

theorem cached_erase (hnodup : (Cache.services cache).Nodup)
    (h : Cache.find? cache service = some ⟨k, old⟩) :
    (perService factory).cached (Cache.erase cache service) + ((factory k).cached old + 1) =
      (perService factory).cached cache := by
  have htotal := Cache.total_erase (fun held => (factory held.1).cached held.2 + 1) hnodup h
  have hafter := cached_perService factory (Cache.erase cache service)
  have hbefore := cached_perService factory cache
  dsimp only at htotal
  omega

end

/-- Letting a strategy go takes all that it keeps off the gauge: the entries of its cache at
once, and what their strategies keep one after the other. -/
theorem release_eq (s : Strategy) (state : s.State γ) (metrics : BalancerMetrics) :
    s.release state metrics =
      { metrics with services := metrics.services - s.cached state } := by
  induction s generalizing metrics with
  | roundRobin => unfold release cached; simp
  | preferTags tags => unfold release cached; simp
  | shuffler pooling => unfold release cached; simp
  | weighted weight pooling => unfold release cached; simp
  | identity => unfold release cached; simp
  | andThen first second ihFirst ihSecond =>
      unfold release cached
      rw [ihFirst, ihSecond]
      simp only [Nat.cast_add, Int.sub_sub]
  | perService factory ih =>
      have hfold (es : List (String × ((k : Nat) × (factory k).State γ))) (m : BalancerMetrics) :
          es.foldl (fun m e => (factory e.2.1).release e.2.2 m) m =
            { m with services :=
                m.services - (es.map fun e => (factory e.2.1).cached e.2.2).sum } := by
        induction es generalizing m with
        | nil => simp
        | cons e rest ihRest =>
            rw [List.foldl_cons, ih, ihRest, List.map_cons, List.sum_cons]
            simp only [Nat.cast_add, Int.sub_sub]
      rw [cached_perService, release, hfold]
      unfold Cache.total
      rw [List.sum_map_add, List.map_const', List.sum_replicate_nat]
      simp only [Nat.cast_add, mul_one, Int.sub_sub, Int.add_comm]

/-- No service is kept twice, at any depth. -/
def Distinct : (s : Strategy) → s.State γ → Prop
  | andThen first second, state => first.Distinct state.1 ∧ second.Distinct state.2
  | perService factory, cache =>
    (Cache.services cache).Nodup ∧
      ∀ e ∈ Cache.entries cache, (factory e.2.1).Distinct e.2.2
  | _, _ => True

theorem distinct_fresh (s : Strategy) : s.Distinct (s.fresh γ) := by
  induction s with
  | andThen first second ihFirst ihSecond => exact ⟨ihFirst, ihSecond⟩
  | perService factory ih => exact ⟨List.nodup_nil, fun e he => absurd he List.not_mem_nil⟩
  | _ => trivial

theorem distinct_of_find? {factory : Nat → Strategy} {cache : (perService factory).State γ}
    (hinner : ∀ e ∈ Cache.entries cache, (factory e.2.1).Distinct e.2.2) {service : String}
    {k : Nat} {held : (factory k).State γ} (h : Cache.find? cache service = some ⟨k, held⟩) :
    (factory k).Distinct held :=
  hinner (service, ⟨k, held⟩) (Cache.mem_entries h)

/-! ## One call -/

variable [Generator γ]

/-- A call for a service that is kept is one of its strategy. -/
theorem balance_found {factory : Nat → Strategy} {cache : (perService factory).State γ}
    {service : String} {k : Nat} {held : (factory k).State γ}
    (h : Cache.find? cache service = some ⟨k, held⟩) (commons : Commons γ)
    (endpoints : List Endpoint) :
    (perService factory).balance cache commons service endpoints =
      let r := (factory k).balance held commons.called service endpoints
      { r with state := Cache.update cache service ⟨k, r.state⟩ } := by
  rw [balance]
  simp only [h]
  rfl

/-- A call for any other service is one of a new strategy, which is kept from then on. -/
theorem balance_missing {factory : Nat → Strategy} {cache : (perService factory).State γ}
    {service : String} (h : Cache.find? cache service = none) (commons : Commons γ)
    (endpoints : List Endpoint) :
    (perService factory).balance cache commons service endpoints =
      let k := Cache.built cache
      let r := (factory k).balance ((factory k).fresh γ) commons.called.grown service endpoints
      { r with state := Cache.add cache service ⟨k, r.state⟩ } := by
  rw [balance]
  simp only [h]
  rfl

/-- A call leaves every service at its one place, or takes it in once. -/
theorem distinct_balance {s : Strategy} {state : s.State γ} (h : s.Distinct state)
    (commons : Commons γ) (service : String) (endpoints : List Endpoint) :
    s.Distinct (s.balance state commons service endpoints).state := by
  induction s generalizing commons endpoints with
  | andThen first second ihFirst ihSecond =>
      unfold balance
      dsimp only
      split
      · exact ⟨ihFirst h.1 commons endpoints, h.2⟩
      · exact ⟨ihFirst h.1 commons endpoints, ihSecond h.2 _ _⟩
  | perService factory ih =>
      obtain ⟨hnodup, hinner⟩ := h
      cases hfind : Cache.find? state service with
      | none =>
          rw [balance_missing hfind]
          have habsent := Cache.find?_eq_none_iff.mp hfind
          refine ⟨(Cache.services_add state service _).symm ▸ ?_, fun e he => ?_⟩
          · exact hnodup.append (List.nodup_singleton _) (by simpa using habsent)
          · rcases List.mem_append.mp he with he | he
            · exact hinner e he
            · rw [List.mem_singleton.mp he]
              exact ih _ (distinct_fresh _) _ _
      | some held =>
          obtain ⟨k, held⟩ := held
          rw [balance_found hfind]
          refine ⟨(Cache.services_update state service _).symm ▸ hnodup, fun e he => ?_⟩
          rcases Cache.mem_update he with rfl | he
          · exact ih k (distinct_of_find? hinner hfind) _ _
          · exact hinner e he
  | _ => trivial

/-- A call moves the gauge by as much as it changes what is kept. -/
theorem gauge_balance {s : Strategy} {state : s.State γ} (h : s.Distinct state)
    (commons : Commons γ) (service : String) (endpoints : List Endpoint) :
    let r := s.balance state commons service endpoints
    r.commons.metrics.services - s.cached r.state =
      commons.metrics.services - s.cached state := by
  induction s generalizing commons endpoints with
  | roundRobin => unfold balance; dsimp only; split <;> rfl
  | preferTags tags => unfold balance; dsimp only; split <;> rfl
  | shuffler pooling =>
      exact congrArg (·.services - ((0 : Nat) : Int)) (pooling.metrics_lend state commons _)
  | weighted weight pooling =>
      unfold balance
      dsimp only
      split <;>
        exact congrArg (·.services - ((0 : Nat) : Int)) (pooling.metrics_lend state commons _)
  | identity => rfl
  | andThen first second ihFirst ihSecond =>
      have hfirst := ihFirst h.1 commons endpoints
      have hsecond := ihSecond h.2 (first.balance state.1 commons service endpoints).commons
        (first.balance state.1 commons service endpoints).endpoints
      dsimp only at hfirst hsecond
      unfold balance
      dsimp only
      split <;> (simp only [cached]; omega)
  | perService factory ih =>
      obtain ⟨hnodup, hinner⟩ := h
      dsimp only
      cases hfind : Cache.find? state service with
      | none =>
          have hcall := ih (Cache.built state) (distinct_fresh _) commons.called.grown endpoints
          have hgrown : commons.called.grown.metrics.services = commons.metrics.services + 1 := rfl
          rw [cached_fresh] at hcall
          rw [balance_missing hfind]
          dsimp only at hcall ⊢
          rw [cached_add]
          omega
      | some held =>
          obtain ⟨k, held⟩ := held
          have hcall := ih k (distinct_of_find? hinner hfind) commons.called endpoints
          have hcalled : commons.called.metrics.services = commons.metrics.services := rfl
          have hkept := cached_update hnodup hfind
            ((factory k).balance held commons.called service endpoints).state
          rw [balance_found hfind]
          dsimp only at hcall ⊢
          omega

/-! ## Load balancers that a call goes through -/

/-- The number of calls of load balancers that a call is made of, itself included. A failure
ends the call, so what would have come behind it is not called. -/
def passages : (s : Strategy) → s.State γ → Commons γ → String → List Endpoint → Nat
  | andThen first second, state, commons, service, endpoints =>
    let r := first.balance state.1 commons service endpoints
    first.passages state.1 commons service endpoints +
      if r.failed then 0 else second.passages state.2 r.commons service r.endpoints
  | perService factory, cache, commons, service, endpoints =>
    match Cache.find? cache service with
    | some ⟨k, held⟩ => 1 + (factory k).passages held commons service endpoints
    | none =>
      1 + (factory (Cache.built cache)).passages ((factory _).fresh γ) commons service endpoints
  | _, _, _, _, _ => 0

theorem passages_found {factory : Nat → Strategy} {cache : (perService factory).State γ}
    {service : String} {k : Nat} {held : (factory k).State γ}
    (h : Cache.find? cache service = some ⟨k, held⟩) (commons : Commons γ)
    (endpoints : List Endpoint) :
    (perService factory).passages cache commons service endpoints =
      1 + (factory k).passages held commons service endpoints := by
  rw [passages]
  simp only [h]

theorem passages_missing {factory : Nat → Strategy} {cache : (perService factory).State γ}
    {service : String} (h : Cache.find? cache service = none) (commons : Commons γ)
    (endpoints : List Endpoint) :
    (perService factory).passages cache commons service endpoints =
      1 + (factory (Cache.built cache)).passages ((factory _).fresh γ) commons service
        endpoints := by
  rw [passages]
  simp only [h]

/-- What was counted before has no influence on what a call does. -/
theorem balance_metrics (s : Strategy) (state : s.State γ) (commons : Commons γ)
    (metrics : BalancerMetrics) (service : String) (endpoints : List Endpoint) :
    ∃ after, s.balance state { commons with metrics } service endpoints =
      let r := s.balance state commons service endpoints
      { r with commons := { r.commons with metrics := after } } := by
  induction s generalizing commons metrics endpoints with
  | roundRobin => refine ⟨metrics, ?_⟩; unfold balance; dsimp only; split <;> rfl
  | preferTags tags => refine ⟨metrics, ?_⟩; unfold balance; dsimp only; split <;> rfl
  | shuffler pooling => cases pooling <;> exact ⟨metrics, rfl⟩
  | weighted weight pooling =>
      refine ⟨metrics, ?_⟩
      cases pooling <;> (unfold balance Pooling.lend; dsimp only; split <;> rfl)
  | identity => exact ⟨metrics, rfl⟩
  | andThen first second ihFirst ihSecond =>
      obtain ⟨middle, hfirst⟩ := ihFirst state.1 commons metrics endpoints
      obtain ⟨after, hsecond⟩ := ihSecond state.2
        (first.balance state.1 commons service endpoints).commons middle
        (first.balance state.1 commons service endpoints).endpoints
      dsimp only at hfirst hsecond
      rw [balance, balance, hfirst]
      dsimp only
      rw [hsecond]
      split
      · exact ⟨middle, rfl⟩
      · exact ⟨after, rfl⟩
  | perService factory ih =>
      cases hfind : Cache.find? state service with
      | none =>
          obtain ⟨after, hcall⟩ := ih (Cache.built state) ((factory _).fresh γ)
            commons.called.grown (Commons.called { commons with metrics }).grown.metrics endpoints
          rw [balance_missing hfind, balance_missing hfind]
          exact ⟨after, congrArg (fun r : Balanced γ ((factory (Cache.built state)).State γ) =>
            { r with state := Cache.add state service ⟨Cache.built state, r.state⟩ }) hcall⟩
      | some held =>
          obtain ⟨k, held⟩ := held
          obtain ⟨after, hcall⟩ := ih k held commons.called
            (Commons.called { commons with metrics }).metrics endpoints
          rw [balance_found hfind, balance_found hfind]
          exact ⟨after, congrArg (fun r : Balanced γ ((factory k).State γ) =>
            { r with state := Cache.update state service ⟨k, r.state⟩ }) hcall⟩

theorem passages_metrics (s : Strategy) (state : s.State γ) (commons : Commons γ)
    (metrics : BalancerMetrics) (service : String) (endpoints : List Endpoint) :
    s.passages state { commons with metrics } service endpoints =
      s.passages state commons service endpoints := by
  induction s generalizing commons metrics endpoints with
  | andThen first second ihFirst ihSecond =>
      obtain ⟨middle, hfirst⟩ := first.balance_metrics state.1 commons metrics service endpoints
      rw [passages, passages, hfirst]
      dsimp only
      rw [ihFirst, ihSecond]
  | perService factory ih =>
      cases hfind : Cache.find? state service with
      | none => rw [passages_missing hfind, passages_missing hfind, ih]
      | some held => rw [passages_found hfind, passages_found hfind, ih]
  | _ => rfl

/-- A call is counted once for every load balancer that it goes through. -/
theorem calls_balance (s : Strategy) (state : s.State γ) (commons : Commons γ) (service : String)
    (endpoints : List Endpoint) :
    (s.balance state commons service endpoints).commons.metrics.calls =
      commons.metrics.calls + s.passages state commons service endpoints := by
  induction s generalizing commons endpoints with
  | roundRobin => unfold balance; split <;> rfl
  | preferTags tags => unfold balance; split <;> rfl
  | shuffler pooling => exact congrArg (·.calls) (pooling.metrics_lend state commons _)
  | weighted weight pooling =>
      unfold balance
      dsimp only
      split <;> exact congrArg (·.calls) (pooling.metrics_lend state commons _)
  | identity => rfl
  | andThen first second ihFirst ihSecond =>
      have hfirst := ihFirst state.1 commons endpoints
      rw [balance, passages]
      dsimp only
      split
      · exact hfirst
      · rw [ihSecond, hfirst, Nat.add_assoc]
  | perService factory ih =>
      cases hfind : Cache.find? state service with
      | none =>
          let k := Cache.built state
          have hcall := ih k ((factory k).fresh γ) commons.called.grown endpoints
          have hcounts : (factory k).passages ((factory k).fresh γ) commons.called.grown service
              endpoints = (factory k).passages ((factory k).fresh γ) commons service endpoints :=
            passages_metrics _ _ commons commons.called.grown.metrics service endpoints
          have hcalled : commons.called.grown.metrics.calls = commons.metrics.calls + 1 := rfl
          rw [balance_missing hfind, passages_missing hfind]
          refine hcall.trans ?_
          rw [hcounts, hcalled, Nat.add_assoc]
      | some held =>
          obtain ⟨k, held⟩ := held
          have hcall := ih k held commons.called endpoints
          have hcounts : (factory k).passages held commons.called service endpoints =
              (factory k).passages held commons service endpoints :=
            passages_metrics _ _ commons commons.called.metrics service endpoints
          have hcalled : commons.called.metrics.calls = commons.metrics.calls + 1 := rfl
          rw [balance_found hfind, passages_found hfind]
          refine hcall.trans ?_
          rw [hcounts, hcalled, Nat.add_assoc]

end Strategy

namespace LoadBalancer

/-! ## Services that are current -/

/-- A service is current if it was called since it was forgotten last. -/
def Current (ops : List Operation) (service : String) : Prop :=
  ∃ past endpoints later,
    ops = past ++ .balance service endpoints :: later ∧ .forget service ∉ later

theorem not_current_nil (service : String) : ¬ Current [] service := by
  rintro ⟨past, endpoints, later, h, _⟩
  exact absurd h (by simp)

/-- A call makes its service current, and only forgetting it makes a service cease to be. -/
theorem current_concat {ops : List Operation} {op : Operation} {service : String} :
    Current (ops ++ [op]) service ↔
      (∃ endpoints, op = .balance service endpoints) ∨
        (Current ops service ∧ op ≠ .forget service) := by
  constructor
  · rintro ⟨past, endpoints, later, h, hkept⟩
    rcases List.eq_nil_or_concat later with rfl | ⟨later, last, rfl⟩
    · obtain ⟨_, hlast⟩ := List.append_inj' h rfl
      exact .inl ⟨endpoints, (List.cons.inj hlast).1⟩
    · rw [List.concat_eq_append] at h hkept
      rw [← List.cons_append, ← List.append_assoc] at h
      obtain ⟨hops, hlast⟩ := List.append_inj' h rfl
      obtain rfl : op = last := (List.cons.inj hlast).1
      refine .inr ⟨⟨past, endpoints, later, hops, fun hmem => ?_⟩, ?_⟩
      · exact hkept (List.mem_append_left _ hmem)
      · rintro rfl
        exact hkept (List.mem_append_right _ (List.mem_singleton_self _))
  · rintro (⟨endpoints, rfl⟩ | ⟨⟨past, endpoints, later, rfl, hkept⟩, hop⟩)
    · exact ⟨ops, endpoints, [], rfl, List.not_mem_nil⟩
    · refine ⟨past, endpoints, later ++ [op], by simp, fun hmem => ?_⟩
      rcases List.mem_append.mp hmem with hmem | hmem
      · exact hkept hmem
      · exact hop (List.mem_singleton.mp hmem).symm

/-- The moments at which a service became current: how many operations there were before, and
which service it was. -/
def arrivals (ops : List Operation) : Set (Nat × String) :=
  {a | a.1 < ops.length ∧ ¬ Current (ops.take a.1) a.2 ∧ Current (ops.take (a.1 + 1)) a.2}

theorem arrivals_concat (ops : List Operation) (op : Operation) :
    arrivals (ops ++ [op]) =
      arrivals ops ∪
        {a | a.1 = ops.length ∧ ¬ Current ops a.2 ∧ Current (ops ++ [op]) a.2} := by
  ext ⟨k, service⟩
  simp only [arrivals, Set.mem_union, Set.mem_ofPred_eq, List.length_append, List.length_singleton]
  rcases Nat.lt_trichotomy k ops.length with hk | rfl | hk
  · rw [List.take_append_of_le_length (by omega), List.take_append_of_le_length (by omega)]
    constructor
    · rintro ⟨_, h⟩
      exact .inl ⟨hk, h⟩
    · rintro (⟨_, h⟩ | ⟨h, _⟩)
      · exact ⟨by omega, h⟩
      · omega
  · have hbefore : (ops ++ [op]).take ops.length = ops := List.take_left
    have hafter : (ops ++ [op]).take (ops.length + 1) = ops ++ [op] :=
      List.take_of_length_le (by simp)
    rw [hbefore, hafter]
    constructor
    · rintro ⟨_, h⟩
      exact .inr ⟨rfl, h⟩
    · rintro (⟨h, _⟩ | ⟨_, h⟩)
      · omega
      · exact ⟨by omega, h⟩
  · constructor
    · rintro ⟨h, _⟩
      omega
    · rintro (⟨h, _⟩ | ⟨h, _⟩) <;> omega

theorem arrivals_of_known {ops : List Operation} {op : Operation}
    (h : ∀ service, Current (ops ++ [op]) service → Current ops service) :
    arrivals (ops ++ [op]) = arrivals ops := by
  rw [arrivals_concat, Set.union_eq_left]
  rintro ⟨k, service⟩ ⟨_, habsent, hpresent⟩
  exact absurd (h service hpresent) habsent

theorem encard_arrivals_of_new {ops : List Operation} {service : String}
    (h : ¬ Current ops service) (endpoints : List Endpoint) :
    (arrivals (ops ++ [.balance service endpoints])).encard = (arrivals ops).encard + 1 := by
  have harrived : {a : Nat × String | a.1 = ops.length ∧ ¬ Current ops a.2 ∧
      Current (ops ++ [.balance service endpoints]) a.2} = {(ops.length, service)} := by
    ext ⟨k, other⟩
    simp only [Set.mem_ofPred_eq, Set.mem_singleton_iff, Prod.mk.injEq, current_concat]
    constructor
    · rintro ⟨hk, habsent, ⟨_, hop⟩ | ⟨hpresent, _⟩⟩
      · cases hop
        exact ⟨hk, rfl⟩
      · exact absurd hpresent habsent
    · rintro ⟨hk, rfl⟩
      exact ⟨hk, h, .inl ⟨endpoints, rfl⟩⟩
  rw [arrivals_concat, harrived, Set.union_singleton]
  refine Set.encard_insert_of_notMem fun hmem => ?_
  exact absurd hmem.1 (lt_irrefl _)

/-! ## Runs -/

variable {factory : Nat → Strategy}

/-- What holds of a load balancer, and of what all have in common, after some operations. -/
structure Upkeep (commons : Commons γ) (past : List Operation) (lb : LoadBalancer γ factory)
    (after : Commons γ) : Prop where
  /-- No service is kept twice. -/
  distinct : (Strategy.perService factory).Distinct lb
  /-- The services that are kept are those that are current. -/
  current : ∀ service, service ∈ lb.cache.services ↔ Current past service
  /-- The factory was called once for every arrival. -/
  built : (arrivals past).encard = lb.cache.built
  /-- The gauge shows all that is kept, beyond what it showed before. -/
  gauge : after.metrics.services - (Strategy.perService factory).cached lb =
    commons.metrics.services

theorem upkeep_fresh (factory : Nat → Strategy) (commons : Commons γ) :
    Upkeep commons [] ((Strategy.perService factory).fresh γ) commons := by
  refine ⟨Strategy.distinct_fresh _, fun service => ?_, ?_, ?_⟩
  · exact ⟨fun h => absurd h List.not_mem_nil, fun h => absurd h (not_current_nil service)⟩
  · rw [Set.encard_eq_zero.mpr]
    · rfl
    · exact Set.eq_empty_of_forall_notMem fun a h => absurd h.1 (Nat.not_lt_zero _)
  · rw [Strategy.cached_fresh]
    exact Int.sub_zero _

variable {commons after : Commons γ} {past : List Operation} {lb : LoadBalancer γ factory}

theorem forget_missing {service : String} (h : lb.cache.find? service = none)
    (commons : Commons γ) : lb.forget commons service = (false, lb, commons) := by
  unfold forget
  rw [h]

theorem forget_found {service : String} {k : Nat} {held : (factory k).State γ}
    (h : lb.cache.find? service = some ⟨k, held⟩) (commons : Commons γ) :
    lb.forget commons service =
      (true, lb.cache.erase service, commons.shrunk ((factory k).cached held + 1)) := by
  have hlost : commons.metrics.services - (factory k).cached held - 1 =
      commons.metrics.services - ((factory k).cached held + 1 : Nat) := by omega
  unfold forget Commons.shrunk
  rw [h]
  dsimp only
  rw [Strategy.release_eq, ← hlost]
  rfl

/-- Forgetting finds the services that are current, and no others. -/
theorem Upkeep.forgot_iff (h : Upkeep commons past lb after) (service : String) :
    (lb.forget after service).1 = true ↔ Current past service := by
  rw [← h.current service]
  cases hfind : lb.cache.find? service with
  | none =>
      rw [forget_missing hfind]
      exact ⟨fun h => absurd h Bool.false_ne_true,
        fun hmem => absurd hmem (Cache.find?_eq_none_iff.mp hfind)⟩
  | some held =>
      rw [forget_found hfind]
      exact ⟨fun _ => Cache.mem_services hfind, fun _ => rfl⟩

theorem Upkeep.forget (h : Upkeep commons past lb after) (service : String) :
    Upkeep commons (past ++ [.forget service]) (lb.forget after service).2.1
      (lb.forget after service).2.2 := by
  have hpast (other : String) : Current (past ++ [.forget service]) other ↔
      Current past other ∧ other ≠ service := by
    rw [current_concat]
    constructor
    · rintro (⟨_, hop⟩ | ⟨hother, hop⟩)
      · cases hop
      · exact ⟨hother, fun heq => hop (heq ▸ rfl)⟩
    · rintro ⟨hother, hne⟩
      exact .inr ⟨hother, fun hop => hne (Operation.forget.inj hop).symm⟩
  have harrivals : (arrivals (past ++ [.forget service])).encard = lb.cache.built := by
    rw [arrivals_of_known fun other hother => ((hpast other).mp hother).1, h.built]
  cases hfind : lb.cache.find? service with
  | none =>
      rw [forget_missing hfind]
      refine ⟨h.distinct, fun other => ?_, harrivals, h.gauge⟩
      rw [h.current other, hpast other]
      refine ⟨fun hother => ⟨hother, ?_⟩, And.left⟩
      rintro rfl
      exact Cache.find?_eq_none_iff.mp hfind ((h.current other).mpr hother)
  | some held =>
      obtain ⟨k, held⟩ := held
      rw [forget_found hfind]
      refine ⟨?_, fun other => ?_, harrivals, ?_⟩
      · refine ⟨(Cache.services_erase lb.cache service).symm ▸ h.distinct.1.filter _, ?_⟩
        exact fun e he => h.distinct.2 e (List.mem_filter.mp he).1
      · show other ∈ (lb.cache.erase service).services ↔ _
        rw [hpast other, ← h.current other, Cache.services_erase, List.mem_filter, bne_iff_ne]
      · have hkept := Strategy.cached_erase h.distinct.1 hfind
        have hgauge := h.gauge
        show (after.shrunk _).metrics.services - ((Strategy.perService factory).cached
          (Cache.erase lb service) : Int) = _
        unfold Commons.shrunk
        dsimp only
        omega

theorem Upkeep.balance [Generator γ] (h : Upkeep commons past lb after) (service : String)
    (endpoints : List Endpoint) :
    Upkeep commons (past ++ [.balance service endpoints])
      (lb.balance after service endpoints).state
      (lb.balance after service endpoints).commons := by
  have hpast (other : String) : Current (past ++ [.balance service endpoints]) other ↔
      other ∈ lb.cache.services ∨ other = service := by
    rw [current_concat, h.current other]
    constructor
    · rintro (⟨_, hop⟩ | ⟨hother, _⟩)
      · exact .inr (Operation.balance.inj hop).1.symm
      · exact .inl hother
    · rintro (hother | rfl)
      · exact .inr ⟨hother, fun hop => by cases hop⟩
      · exact .inl ⟨endpoints, rfl⟩
  have hgauge := (Strategy.gauge_balance h.distinct after service endpoints).trans h.gauge
  have hdistinct := Strategy.distinct_balance h.distinct after service endpoints
  cases hfind : lb.cache.find? service with
  | none =>
      have habsent := Cache.find?_eq_none_iff.mp hfind
      have hservices : (lb.balance after service endpoints).state.cache.services =
          lb.cache.services ++ [service] :=
        (congrArg (Cache.services ·.state) (Strategy.balance_missing hfind after endpoints)).trans
          (Cache.services_add lb service _)
      have hbuilt : (lb.balance after service endpoints).state.cache.built =
          lb.cache.built + 1 :=
        congrArg (Cache.built ·.state) (Strategy.balance_missing hfind after endpoints)
      refine ⟨hdistinct, fun other => ?_, ?_, hgauge⟩
      · rw [hpast other, hservices, List.mem_append, List.mem_singleton]
      · rw [encard_arrivals_of_new fun hcurrent => habsent ((h.current service).mpr hcurrent),
          h.built, hbuilt, Nat.cast_add, Nat.cast_one]
  | some held =>
      have hmem := Cache.mem_services hfind
      have hservices : (lb.balance after service endpoints).state.cache.services =
          lb.cache.services :=
        (congrArg (Cache.services ·.state) (Strategy.balance_found hfind after endpoints)).trans
          (Cache.services_update lb service _)
      have hbuilt : (lb.balance after service endpoints).state.cache.built = lb.cache.built :=
        congrArg (Cache.built ·.state) (Strategy.balance_found hfind after endpoints)
      refine ⟨hdistinct, fun other => ?_, ?_, hgauge⟩
      · rw [hpast other, hservices, or_iff_left_of_imp]
        rintro rfl
        exact hmem
      · rw [hbuilt, ← h.built, arrivals_of_known]
        intro other hother
        rcases (hpast other).mp hother with hkept | rfl
        · exact (h.current other).mp hkept
        · exact (h.current other).mp hmem

variable [Generator γ]

/-- The step: every operation keeps cache, factory and gauge together. -/
theorem Upkeep.perform (h : Upkeep commons past lb after) (op : Operation) :
    Upkeep commons (past ++ [op]) (lb.perform after op).2.1 (lb.perform after op).2.2 := by
  cases op with
  | balance service endpoints => exact h.balance service endpoints
  | forget service => exact h.forget service

/-- The run: so does every sequence of operations. -/
theorem Upkeep.run (h : Upkeep commons past lb after) (ops : List Operation) :
    Upkeep commons (past ++ ops) (lb.run after ops).2.1 (lb.run after ops).2.2 := by
  induction ops generalizing past lb after with
  | nil =>
      rw [List.append_nil]
      exact h
  | cons op rest ih =>
      rw [List.append_cons]
      exact ih (h.perform op)

/-- What is found when a service is forgotten in the course of a run. -/
theorem Upkeep.forgot_run (h : Upkeep commons past lb after) {ops : List Operation} {k : Nat}
    {service : String} (hk : ops[k]? = some (.forget service)) :
    ∃ found, (lb.run after ops).1[k]? = some (.forgot found) ∧
      (found = true ↔ Current (past ++ ops.take k) service) := by
  induction ops generalizing past lb after k with
  | nil => cases hk
  | cons op rest ih =>
      cases k with
      | zero =>
          cases hk
          refine ⟨(lb.forget after service).1, rfl, ?_⟩
          rw [List.take_zero, List.append_nil]
          exact h.forgot_iff service
      | succ k =>
          rw [List.take_succ_cons, List.append_cons]
          exact ih (h.perform op) hk

/-- The number of calls of load balancers that a run is made of. -/
def passages (lb : LoadBalancer γ factory) (commons : Commons γ) : List Operation → Nat
  | [] => 0
  | op :: ops =>
    let calls := match op with
      | .balance service endpoints =>
        (Strategy.perService factory).passages lb commons service endpoints
      | .forget _ => 0
    let r := lb.perform commons op
    calls + passages r.2.1 r.2.2 ops

omit [Generator γ] in
theorem calls_forget (lb : LoadBalancer γ factory) (commons : Commons γ) (service : String) :
    (lb.forget commons service).2.2.metrics.calls = commons.metrics.calls := by
  cases hfind : lb.cache.find? service with
  | none => rw [forget_missing hfind]
  | some held => rw [forget_found hfind]; rfl

theorem calls_run (lb : LoadBalancer γ factory) (commons : Commons γ) (ops : List Operation) :
    (lb.run commons ops).2.2.metrics.calls =
      commons.metrics.calls + lb.passages commons ops := by
  induction ops generalizing lb commons with
  | nil => rfl
  | cons op rest ih =>
      have hrest := ih (lb.perform commons op).2.1 (lb.perform commons op).2.2
      cases op with
      | balance service endpoints =>
          have hcall := (Strategy.perService factory).calls_balance lb commons service endpoints
          refine hrest.trans ?_
          rw [passages, ← Nat.add_assoc]
          exact congrArg (· + _) hcall
      | forget service =>
          refine hrest.trans ?_
          rw [passages, Nat.zero_add]
          exact congrArg (· + _) (lb.calls_forget commons service)

/-- **Cache and counts stay in step.** After any operations on a new load balancer, whatever its
factory builds: the services that are kept are those that were called since they were forgotten
last; forgetting tells whether a service was one of them; the factory was called once for
every service that became one; the gauge has grown by all that is kept, at any depth, and shows
what it showed before once the load balancer is let go; and the counter has grown by the calls of
load balancers, nested ones included. -/
theorem cache_in_step (factory : Nat → Strategy) (commons : Commons γ) (ops : List Operation) :
    let start : LoadBalancer γ factory := (Strategy.perService factory).fresh γ
    let reactions := (start.run commons ops).1
    let lb := (start.run commons ops).2.1
    let after := (start.run commons ops).2.2
    (lb.size : ℕ∞) = {service | Current ops service}.encard ∧
    (lb.isEmpty = true ↔ lb.size = 0) ∧
    (∀ k service, ops[k]? = some (.forget service) →
      ∃ found, reactions[k]? = some (.forgot found) ∧
        (found = true ↔ Current (ops.take k) service)) ∧
    (lb.cache.built : ℕ∞) = (arrivals ops).encard ∧
    after.metrics.services =
      commons.metrics.services + (Strategy.perService factory).cached lb ∧
    ((Strategy.perService factory).drop lb after).metrics.services = commons.metrics.services ∧
    after.metrics.calls = commons.metrics.calls + start.passages commons ops := by
  intro start reactions lb after
  have hstart : Upkeep commons [] start commons := upkeep_fresh factory commons
  have hafter : Upkeep commons ops lb after := hstart.run ops
  have hgauge := hafter.gauge
  refine ⟨?_, ?_, fun k service hk => hstart.forgot_run hk, hafter.built.symm, by omega, ?_,
    calls_run start commons ops⟩
  · have hkept : {service | Current ops service} = (lb.cache.services.toFinset : Set String) := by
      ext service
      rw [Finset.mem_coe, List.mem_toFinset]
      exact (hafter.current service).symm
    have hcard : lb.cache.services.toFinset.card = lb.cache.services.length :=
      List.toFinset_card_of_nodup hafter.distinct.1
    rw [hkept, Set.encard_coe_eq_coe_finsetCard, hcard]
    exact congrArg _ (List.length_map _).symm
  · unfold isEmpty size
    rw [List.isEmpty_iff, List.length_eq_zero_iff]
  · unfold Strategy.drop
    rw [Strategy.release_eq]
    exact hgauge

/-- Two services whose strategies hold a load balancer each, one of them forgotten twice. -/
theorem cache_in_step_of_interleaved :
    let start := fresh Draws twofold
    let commons : Commons Draws := { entropy := { seed := fun _ => {} } }
    let r := start.run commons interleaved
    interleaved[7]? = some (.forget "billing") ∧
      (∃ found, r.1[7]? = some (.forgot found) ∧
        (found = true ↔ Current (interleaved.take 7) "billing")) ∧
      r.2.1.size = 1 ∧ r.2.1.cache.built = 3 ∧
      r.2.2.metrics = { services := 2, calls := 14 } := by
  intro start commons r
  have hforget : interleaved[7]? = some (.forget "billing") := rfl
  obtain ⟨_, _, hforgot, _⟩ := cache_in_step (fun _ => twofold) commons interleaved
  exact ⟨hforget, hforgot 7 "billing" hforget, by decide +kernel, by decide +kernel,
    by decide +kernel⟩

end LoadBalancer

end Tenure
