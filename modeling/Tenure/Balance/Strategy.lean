import Tenure.Balance.Endpoint
import Tenure.Balance.Shuffle

/-!
# Balancing strategies

A `Strategy` says how the endpoints of a service are ordered, the one to be tried first
in front. It is an expression; what it remembers between calls is its `State`: the turn
of a rotation, a pool of generators, and, for a strategy that is kept per service, the
states of the services seen so far.

`Strategy.balance` orders one list. It only reorders. A weight function that fails
ends the call: the list stays as the strategies before it left it.
-/

namespace Tenure

open Numeric

/-- Where a random strategy gets its generators: from the pool that all share or from
one of its own. -/
inductive Pooling
  | shared
  | own
deriving DecidableEq

/-- How the endpoints of a service are ordered. -/
inductive Strategy
  /-- Rotates the list, one place further at every call. -/
  | roundRobin
  /-- Moves endpoints that carry one of the tags to the front. -/
  | preferTags (tags : List String)
  /-- Any order, each as likely as the others. -/
  | shuffler (pooling : Pooling)
  /-- A random order in which light endpoints tend to come first. -/
  | weighted (weight : Endpoint → Option Binary64) (pooling : Pooling)
  /-- Leaves the list as it is. -/
  | identity
  /-- The first strategy, then the second on what it left. -/
  | andThen (first second : Strategy)
  /-- A strategy for each service, built when it is first needed: `factory k` is what the
  factory builds after it has built `k` others. -/
  | perService (factory : Nat → Strategy)

/-- What per-service balancers count. -/
structure BalancerMetrics where
  /-- Strategies that are kept for a service at present. -/
  services : Int := 0
  /-- Lists that were ordered. -/
  calls : Nat := 0
deriving DecidableEq

/-- What all strategies have in common. -/
structure Commons (γ : Type) where
  pool : Pool γ := .empty
  entropy : Entropy γ
  metrics : BalancerMetrics := {}

/-- The states of the services seen, in the order in which they were first seen. -/
structure Cache (σ : Type) where
  entries : List (String × σ) := []
  /-- How often the factory was called. -/
  built : Nat := 0

namespace Cache

variable {σ : Type}

/-- The state of a service. -/
def find? (c : Cache σ) (service : String) : Option σ := c.entries.lookup service

/-- Takes in a service that was just built. -/
def add (c : Cache σ) (service : String) (state : σ) : Cache σ :=
  { entries := c.entries ++ [(service, state)], built := c.built + 1 }

/-- Replaces the state of a service. -/
def update (c : Cache σ) (service : String) (state : σ) : Cache σ :=
  { c with entries := c.entries.map fun e => if e.1 = service then (service, state) else e }

/-- Removes a service. -/
def erase (c : Cache σ) (service : String) : Cache σ :=
  { c with entries := c.entries.filter fun e => e.1 != service }

end Cache

namespace Pooling

/-- The pool of a strategy's own, if it has one. -/
def State (γ : Type) : Pooling → Type
  | shared => Unit
  | own => Pool γ

/-- No generator waits in a new pool. -/
def fresh (γ : Type) : (p : Pooling) → p.State γ
  | shared => ()
  | own => Pool.empty

/-- Runs something that needs a generator. -/
def lend {γ α : Type} : (p : Pooling) → p.State γ → Commons γ → (γ → α × γ) →
    α × p.State γ × Commons γ
  | shared, state, commons, use =>
    let (a, pool, entropy) := commons.pool.lend commons.entropy use
    (a, state, { commons with pool, entropy })
  | own, pool, commons, use =>
    let (a, pool, entropy) := Pool.lend pool commons.entropy use
    (a, pool, { commons with entropy })

end Pooling

namespace Strategy

instance : Inhabited Strategy := ⟨identity⟩

/-- A strategy as the factory that builds this one every time. -/
instance : Coe Strategy (Nat → Strategy) := ⟨fun s _ => s⟩

/-- The strategies of a list, one after the other. -/
def sequence (parts : List Strategy) : Strategy := parts.foldr andThen identity

/-- A weighted shuffle by round-trip time. -/
def byRtt (pooling : Pooling) : Strategy := weighted (fun e => some e.rttWeight) pooling

/-- What a strategy remembers. -/
def State (γ : Type) : Strategy → Type
  | roundRobin => UInt64
  | preferTags _ => Unit
  | shuffler pooling => pooling.State γ
  | weighted _ pooling => pooling.State γ
  | identity => Unit
  | andThen first second => first.State γ × second.State γ
  | perService factory => Cache ((k : Nat) × (factory k).State γ)

/-- The state of a strategy that was just built. -/
def fresh (γ : Type) : (s : Strategy) → s.State γ
  | roundRobin => (0 : UInt64)
  | preferTags _ => ()
  | shuffler pooling => pooling.fresh γ
  | weighted _ pooling => pooling.fresh γ
  | identity => ()
  | andThen first second => (first.fresh γ, second.fresh γ)
  | perService _ => ({} : Cache _)

/-- The number of services that are kept in the state, at any depth. -/
def cached {γ : Type} : (s : Strategy) → s.State γ → Nat
  | roundRobin, _ => 0
  | preferTags _, _ => 0
  | shuffler _, _ => 0
  | weighted _ _, _ => 0
  | identity, _ => 0
  | andThen first second, state => first.cached state.1 + second.cached state.2
  | perService factory, cache =>
    (Cache.entries cache).foldl (fun n e => n + ((factory e.2.1).cached e.2.2 + 1)) 0

/-- What a call leaves. -/
structure Balanced (γ σ : Type) where
  state : σ
  commons : Commons γ
  endpoints : List Endpoint
  /-- Whether a weight function failed. -/
  failed : Bool := false

/-- Orders the endpoints of a service. -/
def balance {γ : Type} [Generator γ] : (s : Strategy) → s.State γ → Commons γ → String →
    List Endpoint → Balanced γ (s.State γ)
  | roundRobin, turn, commons, _, endpoints =>
    if endpoints.isEmpty then { state := turn, commons, endpoints }
    else
      let turn : UInt64 := UInt64.add turn 1
      { state := turn, commons, endpoints := endpoints.rotateLeft turn.toNat }
  | preferTags tags, state, commons, _, endpoints =>
    if tags.isEmpty then { state, commons, endpoints }
    else
      let (preferred, others) := endpoints.partition (·.hasAnyTag tags)
      { state, commons, endpoints := preferred ++ others }
  | shuffler pooling, state, commons, _, endpoints =>
    let (endpoints, state, commons) := pooling.lend state commons (shuffle · endpoints)
    { state, commons, endpoints }
  | weighted weight pooling, state, commons, _, endpoints =>
    let (outcome, state, commons) :=
      pooling.lend state commons (weightedShuffle weight · endpoints)
    match outcome with
    | some endpoints => { state, commons, endpoints }
    | none => { state, commons, endpoints, failed := true }
  | identity, state, commons, _, endpoints => { state, commons, endpoints }
  | andThen first second, state, commons, service, endpoints =>
    let r := first.balance state.1 commons service endpoints
    if r.failed then { r with state := (r.state, state.2) }
    else
      let q := second.balance state.2 r.commons service r.endpoints
      { q with state := (r.state, q.state) }
  | perService factory, cache, commons, service, endpoints =>
    let metrics := { commons.metrics with calls := commons.metrics.calls + 1 }
    match Cache.find? cache service with
    | some ⟨k, state⟩ =>
      let r := (factory k).balance state { commons with metrics } service endpoints
      { r with state := Cache.update cache service ⟨k, r.state⟩ }
    | none =>
      let k := Cache.built cache
      let metrics := { metrics with services := metrics.services + 1 }
      let r := (factory k).balance ((factory k).fresh γ) { commons with metrics } service endpoints
      { r with state := Cache.add cache service ⟨k, r.state⟩ }

/-- The counts once a strategy is let go. A per-service strategy takes its services off the
count, and then the strategies that it keeps are let go one after the other. -/
def release {γ : Type} : (s : Strategy) → s.State γ → BalancerMetrics → BalancerMetrics
  | roundRobin, _, metrics => metrics
  | preferTags _, _, metrics => metrics
  | shuffler _, _, metrics => metrics
  | weighted _ _, _, metrics => metrics
  | identity, _, metrics => metrics
  | andThen first second, state, metrics => second.release state.2 (first.release state.1 metrics)
  | perService factory, cache, metrics =>
    let services := metrics.services - (Cache.entries cache).length
    (Cache.entries cache).foldl (fun m e => (factory e.2.1).release e.2.2 m)
      { metrics with services }

/-- Lets go of a strategy. -/
def drop {γ : Type} (s : Strategy) (state : s.State γ) (commons : Commons γ) : Commons γ :=
  { commons with metrics := s.release state commons.metrics }

end Strategy

end Tenure
