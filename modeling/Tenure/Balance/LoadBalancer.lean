import Tenure.Balance.Strategy
import Tenure.Numeric.Decimal

/-!
# Load balancers

A load balancer keeps a strategy for every service, so that what a strategy remembers
advances for each service on its own. It is the state of a `perService` strategy;
here are the operations on it besides ordering a list.
-/

namespace Tenure

/-- A strategy for every service, as the factory builds them one after the other. -/
abbrev LoadBalancer (γ : Type) (factory : Nat → Strategy) := (Strategy.perService factory).State γ

namespace LoadBalancer

variable {γ : Type} {factory : Nat → Strategy}

/-- The services and their states. -/
def cache (lb : LoadBalancer γ factory) : Cache ((k : Nat) × (factory k).State γ) := lb

/-- Orders the endpoints of a service. -/
def balance [Generator γ] (lb : LoadBalancer γ factory) (commons : Commons γ) (service : String)
    (endpoints : List Endpoint) : Strategy.Balanced γ (LoadBalancer γ factory) :=
  (Strategy.perService factory).balance lb commons service endpoints

/-- The number of services that have a strategy. -/
def size (lb : LoadBalancer γ factory) : Nat := lb.cache.entries.length

/-- Whether no service has a strategy. -/
def isEmpty (lb : LoadBalancer γ factory) : Bool := lb.cache.entries.isEmpty

/-- Lets go of the strategy of a service, the next call building a new one. Tells
whether there was one. -/
def forget (lb : LoadBalancer γ factory) (commons : Commons γ) (service : String) :
    Bool × LoadBalancer γ factory × Commons γ :=
  match lb.cache.find? service with
  | none => (false, lb, commons)
  | some ⟨k, state⟩ =>
    let metrics := (factory k).release state commons.metrics
    (true, lb.cache.erase service,
      { commons with metrics := { metrics with services := metrics.services - 1 } })

/-! ## Sequences of operations -/

/-- What is asked of a load balancer. -/
inductive Operation
  | balance (service : String) (endpoints : List Endpoint)
  | forget (service : String)

/-- What an operation gives. -/
inductive Reaction
  /-- The list as it was ordered. -/
  | balanced (endpoints : List Endpoint)
  /-- Whether there was a strategy to let go. -/
  | forgot (found : Bool)
deriving DecidableEq

/-- Performs one operation. -/
def perform [Generator γ] (lb : LoadBalancer γ factory) (commons : Commons γ) :
    Operation → Reaction × LoadBalancer γ factory × Commons γ
  | .balance service endpoints =>
    let r := lb.balance commons service endpoints
    (.balanced r.endpoints, r.state, r.commons)
  | .forget service =>
    let (found, lb, commons) := lb.forget commons service
    (.forgot found, lb, commons)

/-- Performs operations one after the other, giving what each of them gives. -/
def run [Generator γ] (lb : LoadBalancer γ factory) (commons : Commons γ) :
    List Operation → List Reaction × LoadBalancer γ factory × Commons γ
  | [] => ([], lb, commons)
  | op :: ops =>
    let (reaction, lb, commons) := lb.perform commons op
    let (reactions, lb, commons) := run lb commons ops
    (reaction :: reactions, lb, commons)

end LoadBalancer

/-! ## Display -/

/-- A name with one counted field, as a record is displayed. -/
def displayCounted (name field : String) (count : Nat) : String :=
  name ++ " \x7b " ++ field ++ ": " ++ String.ofList (Numeric.decimalDigits count) ++ " \x7d"

/-- The display of a load balancer. -/
def LoadBalancer.display {γ : Type} {factory : Nat → Strategy} (lb : LoadBalancer γ factory) :
    String :=
  displayCounted "LoadBalancer" "services" lb.size

/-- The display of a sequence of strategies. -/
def Strategy.displaySequence (parts : List Strategy) : String :=
  displayCounted "MultiBalancer" "balancers" parts.length

/-- The display of a weighted shuffle, whose weights cannot be shown. -/
def Strategy.displayWeighted : String := "WeightedShuffler \x7b .. \x7d"

end Tenure
