import Tenure.Balance.LoadBalancer
import Tenure.Proofs.Balance.Reordering

/-!
# Services do not influence each other

A load balancer is one cache for all services. It behaves as if every service had a
strategy to itself, made anew when the service is called after it was forgotten, as long
as the factory builds the same strategy every time and nothing is drawn: generators come
from a pool that is common to all.

* `Strategy.balance_commons` — what a strategy that draws nothing does depends on its own
  state only;
* `LoadBalancer.Served.perform` — the cache holds for a service what the calls since it was
  forgotten make of a new strategy;
* `LoadBalancer.Alike.run` — what is done for a service depends on what the cache holds for
  that service only;
* `LoadBalancer.services_apart` — so the calls for a service are answered as by a strategy
  that gets these calls and no others.
-/

namespace Tenure

variable {γ : Type}

/-! ## Looking services up -/

namespace Cache

variable {σ : Type} {service other : String}

theorem find?_add_self {c : Cache σ} (h : c.find? service = none) (state : σ) :
    (c.add service state).find? service = some state := by
  unfold find? at h
  simp only [find?, add, List.lookup_append, h, List.lookup_cons_self, Option.none_or]

theorem find?_add_of_ne (h : other ≠ service) (c : Cache σ) (state : σ) :
    (c.add service state).find? other = c.find? other := by
  have hkey : (other == service) = false := beq_eq_false_iff_ne.mpr h
  simp only [find?, add, List.lookup_append, List.lookup_cons, hkey, List.lookup_nil, Option.or_none]

theorem find?_update_self {c : Cache σ} {old : σ} (h : c.find? service = some old) (state : σ) :
    (c.update service state).find? service = some state := by
  obtain ⟨entries, built⟩ := c
  unfold find? update at *
  dsimp only at *
  induction entries with
  | nil => cases h
  | cons e rest ih =>
      rw [List.map_cons]
      by_cases hkey : e.1 = service
      · rw [if_pos hkey, List.lookup_cons_self]
      · have hne : (service == e.1) = false := beq_eq_false_iff_ne.mpr (Ne.symm hkey)
        rw [if_neg hkey, List.lookup_cons, hne]
        rw [List.lookup_cons, hne] at h
        exact ih h

theorem find?_update_of_ne (h : other ≠ service) (c : Cache σ) (state : σ) :
    (c.update service state).find? other = c.find? other := by
  obtain ⟨entries, built⟩ := c
  unfold find? update
  dsimp only
  induction entries with
  | nil => rfl
  | cons e rest ih =>
      rw [List.map_cons, List.lookup_cons, List.lookup_cons, ih]
      by_cases hkey : e.1 = service
      · rw [if_pos hkey, hkey, beq_eq_false_iff_ne.mpr h]
      · rw [if_neg hkey]

theorem find?_erase_self (c : Cache σ) (service : String) :
    (c.erase service).find? service = none := by
  refine List.lookup_eq_none_iff.mpr fun e he => ?_
  have hkey : (e.1 != service) = true := (List.mem_filter.mp he).2
  simpa using Ne.symm (bne_iff_ne.mp hkey)

theorem find?_erase_of_ne (h : other ≠ service) (c : Cache σ) :
    (c.erase service).find? other = c.find? other := by
  obtain ⟨entries, built⟩ := c
  unfold find? erase
  dsimp only
  induction entries with
  | nil => rfl
  | cons e rest ih =>
      by_cases hkey : e.1 = service
      · rw [List.filter_cons_of_neg (by simp [hkey]), List.lookup_cons, hkey,
          beq_eq_false_iff_ne.mpr h, ih]
      · rw [List.filter_cons_of_pos (by simp [hkey]), List.lookup_cons, List.lookup_cons, ih]

end Cache

/-! ## Strategies that draw nothing -/

namespace Strategy

/-- Whether no generator is needed, by the strategy or by one it is built from. -/
def DrawsNothing : Strategy → Prop
  | shuffler _ => False
  | weighted _ _ => False
  | andThen first second => first.DrawsNothing ∧ second.DrawsNothing
  | perService factory => ∀ k, (factory k).DrawsNothing
  | _ => True

theorem DrawsNothing.weighs {s : Strategy} (h : s.DrawsNothing) : s.Weighs := by
  induction s with
  | roundRobin => trivial
  | preferTags tags => trivial
  | shuffler pooling => exact h.elim
  | weighted weight pooling => exact h.elim
  | identity => trivial
  | andThen first second ihFirst ihSecond => exact ⟨ihFirst h.1, ihSecond h.2⟩
  | perService factory ih => exact fun k => ih k (h k)

variable [Generator γ]

/-- What all strategies have in common does not matter to one that draws nothing. -/
theorem balance_commons {s : Strategy} (h : s.DrawsNothing) (state : s.State γ)
    (commons other : Commons γ) (service : String) (endpoints : List Endpoint) :
    (s.balance state commons service endpoints).state =
        (s.balance state other service endpoints).state ∧
      (s.balance state commons service endpoints).endpoints =
        (s.balance state other service endpoints).endpoints := by
  induction s generalizing commons other endpoints with
  | roundRobin => unfold balance; split <;> exact ⟨rfl, rfl⟩
  | preferTags tags => unfold balance; split <;> exact ⟨rfl, rfl⟩
  | shuffler pooling => exact h.elim
  | weighted weight pooling => exact h.elim
  | identity => exact ⟨rfl, rfl⟩
  | andThen first second ihFirst ihSecond =>
      obtain ⟨hstate, hlist⟩ := ihFirst h.1 state.1 commons other endpoints
      unfold balance
      dsimp only
      rw [balance_succeeds h.1.weighs, balance_succeeds h.1.weighs, if_neg Bool.false_ne_true,
        if_neg Bool.false_ne_true, hstate, hlist]
      obtain ⟨hstate', hlist'⟩ := ihSecond h.2 state.2 _ _ _
      exact ⟨congrArg (Prod.mk _) hstate', hlist'⟩
  | perService factory ih =>
      unfold balance
      dsimp only
      split
      · obtain ⟨hstate, hlist⟩ := ih _ (h _) _ _ _ endpoints
        exact ⟨congrArg (Cache.update state service) (congrArg (Sigma.mk _) hstate), hlist⟩
      · obtain ⟨hstate, hlist⟩ := ih _ (h _) _ _ _ endpoints
        exact ⟨congrArg (Cache.add state service) (congrArg (Sigma.mk _) hstate), hlist⟩

/-- Calls for one service, one after the other. -/
def serve (s : Strategy) (service : String) (start : s.State γ × Commons γ)
    (calls : List (List Endpoint)) : s.State γ × Commons γ :=
  calls.foldl (fun held endpoints =>
    let r := s.balance held.1 held.2 service endpoints
    (r.state, r.commons)) start

theorem serve_concat (s : Strategy) (service : String) (start : s.State γ × Commons γ)
    (calls : List (List Endpoint)) (endpoints : List Endpoint) :
    (s.serve service start (calls ++ [endpoints])).1 =
      (s.balance (s.serve service start calls).1 (s.serve service start calls).2 service
        endpoints).state := by
  unfold serve
  rw [List.foldl_concat]

/-- How a new strategy orders the list of the last call, the calls before it being the
only ones that it has had. -/
def alone (s : Strategy) (own : Commons γ) (service : String) (calls : List (List Endpoint))
    (endpoints : List Endpoint) : List Endpoint :=
  let held := s.serve service (s.fresh γ, own) calls
  (s.balance held.1 held.2 service endpoints).endpoints

end Strategy

/-! ## One operation -/

namespace LoadBalancer

variable {s : Strategy}

/-- The service that an operation is for. -/
def Operation.service : Operation → String
  | balance service _ => service
  | forget service => service

/-- What the strategy of a service has in mind, if the service has one. -/
def known? (lb : LoadBalancer γ s) (service : String) : Option (s.State γ) :=
  (lb.cache.find? service).map (·.2)

/-- What the strategy has in mind that will answer the next call for a service. -/
def held (lb : LoadBalancer γ s) (service : String) : s.State γ :=
  (lb.known? service).getD (s.fresh γ)

/-- No service has a strategy yet. -/
def fresh (γ : Type) (s : Strategy) : LoadBalancer γ s := (Strategy.perService s).fresh γ

/-- A forgotten service has no strategy, and no other service is forgotten. -/
theorem forget_eq (lb : LoadBalancer γ s) (commons : Commons γ) (service : String) :
    (lb.forget commons service).1 = (lb.known? service).isSome ∧
      (lb.forget commons service).2.1.known? service = none ∧
      ∀ other ≠ service, (lb.forget commons service).2.1.known? other = lb.known? other := by
  unfold forget
  split
  · rename_i hfound
    have hnone : lb.known? service = none := by
      unfold known?
      rw [hfound]
      rfl
    exact ⟨by rw [hnone]; rfl, hnone, fun _ _ => rfl⟩
  · rename_i k state hfound
    refine ⟨?_, ?_, fun other hne => ?_⟩
    · unfold known?
      rw [hfound]
      rfl
    · exact congrArg (Option.map _) (Cache.find?_erase_self _ _)
    · exact congrArg (Option.map _) (Cache.find?_erase_of_ne hne _)

variable [Generator γ]

/-- A call is one of the strategy of its service, and of no other. -/
theorem balance_eq (lb : LoadBalancer γ s) (commons : Commons γ) (service : String)
    (endpoints : List Endpoint) :
    ∃ lent, let r := s.balance (lb.held service) lent service endpoints
      (lb.balance commons service endpoints).endpoints = r.endpoints ∧
        (lb.balance commons service endpoints).state.known? service = some r.state ∧
        ∀ other ≠ service,
          (lb.balance commons service endpoints).state.known? other = lb.known? other := by
  unfold held
  simp only [LoadBalancer.balance, Strategy.balance]
  split
  · rename_i k state hfound
    have hknown : lb.known? service = some state := by
      unfold known?
      rw [show lb.cache.find? service = _ from hfound]
      rfl
    rw [hknown]
    refine ⟨_, rfl, ?_, fun other hne => ?_⟩
    · exact congrArg (Option.map _) (Cache.find?_update_self hfound _)
    · exact congrArg (Option.map _) (Cache.find?_update_of_ne hne _ _)
  · rename_i hfound
    have hknown : lb.known? service = none := by
      unfold known?
      rw [show lb.cache.find? service = _ from hfound]
      rfl
    rw [hknown]
    refine ⟨_, rfl, ?_, fun other hne => ?_⟩
    · exact congrArg (Option.map _) (Cache.find?_add_self hfound _)
    · exact congrArg (Option.map _) (Cache.find?_add_of_ne hne _ _)

/-- What is asked for one service leaves the others as they are. -/
theorem perform_of_ne {service : String} {op : Operation} (h : op.service ≠ service)
    (lb : LoadBalancer γ s) (commons : Commons γ) :
    (lb.perform commons op).2.1.known? service = lb.known? service := by
  cases op with
  | balance other endpoints =>
      obtain ⟨_, _, _, hothers⟩ := lb.balance_eq commons other endpoints
      exact hothers service (Ne.symm h)
  | forget other => exact (lb.forget_eq commons other).2.2 service (Ne.symm h)

theorem run_cons (lb : LoadBalancer γ s) (commons : Commons γ) (op : Operation)
    (ops : List Operation) :
    (lb.run commons (op :: ops)).1 =
      (lb.perform commons op).1 ::
        ((lb.perform commons op).2.1.run (lb.perform commons op).2.2 ops).1 := rfl

theorem run_append (lb : LoadBalancer γ s) (commons : Commons γ) (ops later : List Operation) :
    (lb.run commons (ops ++ later)).1 =
      (lb.run commons ops).1 ++
        ((lb.run commons ops).2.1.run (lb.run commons ops).2.2 later).1 := by
  induction ops generalizing lb commons with
  | nil => rfl
  | cons op rest ih => exact congrArg (List.cons _) (ih _ _)

theorem length_run (lb : LoadBalancer γ s) (commons : Commons γ) (ops : List Operation) :
    (lb.run commons ops).1.length = ops.length := by
  induction ops generalizing lb commons with
  | nil => rfl
  | cons op rest ih => exact congrArg (· + 1) (ih _ _)

/-! ## The calls that a service remembers -/

/-- The calls since a service was forgotten, after one more operation. -/
def noteCall (service : String) (calls : List (List Endpoint)) : Operation → List (List Endpoint)
  | .balance other endpoints => if other = service then calls ++ [endpoints] else calls
  | .forget other => if other = service then [] else calls

/-- The lists that were to be ordered for a service since it was last forgotten. -/
def callsFor (service : String) (ops : List Operation) : List (List Endpoint) :=
  ops.foldl (noteCall service) []

/-- A service has in mind what calls make of a new strategy. -/
def Served (own : Commons γ) (service : String) (calls : List (List Endpoint))
    (lb : LoadBalancer γ s) : Prop :=
  lb.held service = (s.serve service (s.fresh γ, own) calls).1

variable {own : Commons γ} {service : String} {calls : List (List Endpoint)}
  {lb : LoadBalancer γ s}

/-- The step: every operation notes its call, if it is one for the service. -/
theorem Served.perform (hs : s.DrawsNothing) (h : Served own service calls lb)
    (commons : Commons γ) (op : Operation) :
    Served own service (noteCall service calls op) (lb.perform commons op).2.1 := by
  by_cases hop : op.service = service
  · cases op with
    | balance other endpoints =>
        obtain rfl : other = service := hop
        obtain ⟨lent, _, hfound, _⟩ := lb.balance_eq commons other endpoints
        have hcall : noteCall other calls (.balance other endpoints) = calls ++ [endpoints] :=
          if_pos rfl
        unfold Served
        rw [hcall, Strategy.serve_concat, ← h]
        exact (congrArg (Option.getD · _) hfound).trans (Strategy.balance_commons hs ..).1
    | forget other =>
        obtain rfl : other = service := hop
        have hcall : noteCall other calls (.forget other) = [] := if_pos rfl
        rw [hcall]
        exact congrArg (Option.getD · _) (lb.forget_eq commons other).2.1
  · have hsame : noteCall service calls op = calls := by
      cases op <;> exact if_neg hop
    rw [hsame]
    exact (congrArg (Option.getD · _) (perform_of_ne hop lb commons)).trans h

/-- A call is answered as by a strategy that has had the noted calls and no others. -/
theorem Served.reaction (hs : s.DrawsNothing) (h : Served own service calls lb)
    (commons : Commons γ) (endpoints : List Endpoint) :
    (lb.perform commons (.balance service endpoints)).1 =
      .balanced (s.alone own service calls endpoints) := by
  obtain ⟨lent, hlist, _⟩ := lb.balance_eq commons service endpoints
  refine congrArg Reaction.balanced (hlist.trans ?_)
  rw [h]
  exact (Strategy.balance_commons hs ..).2

/-- The run: so is every call that is made later. -/
theorem Served.run (hs : s.DrawsNothing) (h : Served own service calls lb)
    (commons : Commons γ) {ops : List Operation} {k : Nat} {endpoints : List Endpoint}
    (hk : ops[k]? = some (.balance service endpoints)) :
    (lb.run commons ops).1[k]? =
      some (.balanced (s.alone own service
        ((ops.take k).foldl (noteCall service) calls) endpoints)) := by
  induction ops generalizing lb commons calls k with
  | nil => cases hk
  | cons op rest ih =>
      cases k with
      | zero =>
          cases hk
          exact congrArg some (h.reaction hs commons endpoints)
      | succ k => exact ih (h.perform hs commons op) _ hk

/-! ## Load balancers that are alike for a service -/

/-- The reactions to what is asked for a service. -/
def reactionsTo (service : String) (ops : List Operation) (reactions : List Reaction) :
    List Reaction :=
  ((ops.zip reactions).filter (·.1.service = service)).map (·.2)

/-- Two load balancers with the same in mind for a service. -/
def Alike (service : String) (a b : LoadBalancer γ s) : Prop :=
  a.known? service = b.known? service

/-- The step: the same operation has the same reaction, and they stay alike. -/
theorem Alike.perform (hs : s.DrawsNothing) {a b : LoadBalancer γ s} {op : Operation}
    (hop : op.service = service) (h : Alike service a b) (commons other : Commons γ) :
    (a.perform commons op).1 = (b.perform other op).1 ∧
      Alike service (a.perform commons op).2.1 (b.perform other op).2.1 := by
  cases op with
  | balance name endpoints =>
      obtain rfl : name = service := hop
      obtain ⟨lent, hlist, hfound, _⟩ := a.balance_eq commons name endpoints
      obtain ⟨lent', hlist', hfound', _⟩ := b.balance_eq other name endpoints
      have hheld : a.held name = b.held name := congrArg (Option.getD · _) h
      rw [hheld] at hlist hfound
      obtain ⟨hstate, horder⟩ :=
        Strategy.balance_commons hs (b.held name) lent lent' name endpoints
      refine ⟨congrArg Reaction.balanced ?_, ?_⟩
      · rw [hlist, hlist', horder]
      · exact hfound.trans ((congrArg some hstate).trans hfound'.symm)
  | forget name =>
      obtain rfl : name = service := hop
      obtain ⟨hfound, hgone, _⟩ := a.forget_eq commons name
      obtain ⟨hfound', hgone', _⟩ := b.forget_eq other name
      have hsome : (a.known? name).isSome = (b.known? name).isSome := congrArg Option.isSome h
      refine ⟨congrArg Reaction.forgot ?_, hgone.trans hgone'.symm⟩
      exact hfound.trans (hsome.trans hfound'.symm)

/-- The run: what is asked for other services may be left out. -/
theorem Alike.run (hs : s.DrawsNothing) {a b : LoadBalancer γ s}
    (h : Alike service a b) (commons other : Commons γ) (ops : List Operation) :
    reactionsTo service ops (a.run commons ops).1 =
      (b.run other (ops.filter (·.service = service))).1 := by
  induction ops generalizing a b commons other with
  | nil => rfl
  | cons op rest ih =>
      rw [run_cons]
      unfold reactionsTo
      rw [List.zip_cons_cons]
      by_cases hop : op.service = service
      · obtain ⟨hsame, halike⟩ := h.perform hs hop commons other
        rw [List.filter_cons_of_pos (by simpa using hop),
          List.filter_cons_of_pos (by simpa using hop), List.map_cons, run_cons]
        exact congrArg₂ List.cons hsame (ih halike _ _)
      · have halike : Alike service (a.perform commons op).2.1 b :=
          (perform_of_ne hop a commons).trans h
        rw [List.filter_cons_of_neg (by simpa using hop),
          List.filter_cons_of_neg (by simpa using hop)]
        exact ih halike _ _

theorem alike_of_forgotten (service : String) (lb : LoadBalancer γ s) (commons : Commons γ)
    (ops : List Operation) :
    Alike service (lb.run commons (ops ++ [.forget service])).2.1 (fresh γ s) := by
  induction ops generalizing lb commons with
  | nil => exact (lb.forget_eq commons service).2.1
  | cons op rest ih => exact ih _ _

/-! ## Services do not influence each other -/

/-- **Services stay apart.** The load balancer of a factory that always builds a strategy that
draws nothing answers a call for a service as a single new strategy does whose calls, this
one being the last, are those for the service since it was last forgotten. So operations for other
services may be left out, and once a service was forgotten, what it is asked is answered
as by a new load balancer. -/
theorem services_apart (s : Strategy) (hs : s.DrawsNothing)
    (commons own : Commons γ) (ops : List Operation) (service : String) :
    let reactions := ((fresh γ s).run commons ops).1
    (∀ (k : Nat) (endpoints : List Endpoint), ops[k]? = some (.balance service endpoints) →
      reactions[k]? = some (.balanced
        (s.alone own service (callsFor service (ops.take k)) endpoints))) ∧
    reactionsTo service ops reactions =
      ((fresh γ s).run own (ops.filter (·.service = service))).1 ∧
    ∀ past later, ops = past ++ .forget service :: later →
      reactionsTo service later (reactions.drop (past.length + 1)) =
        reactionsTo service later ((fresh γ s).run own later).1 := by
  intro reactions
  have hfresh : Served own service [] (fresh γ s) := rfl
  refine ⟨fun k endpoints hk => hfresh.run hs commons hk, ?_, ?_⟩
  · exact Alike.run hs rfl commons own ops
  · rintro past later rfl
    have hlength := length_run (fresh γ s) commons (past ++ [.forget service])
    rw [List.length_append, List.length_singleton] at hlength
    have hlater : reactions.drop (past.length + 1) =
        (((fresh γ s).run commons (past ++ [.forget service])).2.1.run
          ((fresh γ s).run commons (past ++ [.forget service])).2.2 later).1 := by
      unfold reactions
      rw [List.append_cons, run_append]
      exact List.drop_left' hlength
    rw [hlater, (alike_of_forgotten service _ _ _).run hs _ own later]
    exact (Alike.run hs rfl own own later).symm

/-- A sequence with a rotation of its own and one behind another load balancer. -/
def twofold : Strategy :=
  .sequence [.preferTags ["canary"], .perService .roundRobin, .roundRobin]

/-- Three endpoints, the last one preferred. -/
def trio : List Endpoint :=
  [{ id := "a", addr := "10.0.0.1:80" }, { id := "b", addr := "10.0.0.2:80" },
    { id := "c", addr := "10.0.0.3:80", tags := ["canary"] }]

/-- Two services in turn, one of them forgotten on the way. -/
def interleaved : List Operation :=
  [.balance "orders" trio, .balance "billing" trio, .balance "orders" trio, .forget "orders",
    .balance "billing" trio.reverse, .balance "orders" [], .balance "orders" trio,
    .forget "billing", .balance "orders" trio.reverse]

/-- The last call for the service is its second one with a list since it was forgotten. -/
theorem services_apart_of_interleaved :
    twofold.DrawsNothing ∧ interleaved[8]? = some (.balance "orders" trio.reverse) ∧
      callsFor "orders" (interleaved.take 8) = [[], trio] ∧
      ((fresh Draws twofold).run { entropy := { seed := fun _ => {} } } interleaved).1[8]? =
        some (.balanced (trio.reverse.rotateLeft 1)) := by
  have hdraws : twofold.DrawsNothing := ⟨trivial, fun _ => trivial, trivial, trivial⟩
  have hlast : interleaved[8]? = some (.balance "orders" trio.reverse) := rfl
  refine ⟨hdraws, hlast, by decide +kernel, ?_⟩
  refine ((services_apart twofold hdraws _ { entropy := { seed := fun _ => {} } } interleaved
    "orders").1 8 trio.reverse hlast).trans ?_
  decide +kernel

end LoadBalancer

end Tenure
