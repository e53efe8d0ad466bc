import Tenure.Balance.Strategy

/-!
# Frequencies of the orders that a strategy gives

A strategy is run over and over on one list, and the outcomes are counted under a name
that is made from the order.
-/

namespace Tenure

/-- Counts one more occurrence of a key, a new one behind the others. -/
def countKey (counts : List (String × Nat)) (key : String) : List (String × Nat) :=
  match counts with
  | [] => [(key, 1)]
  | c :: rest => if c.1 = key then (key, c.2 + 1) :: rest else c :: countKey rest key

/-- What `draws` runs of a strategy on one list give, each run counted under the key
of its outcome. -/
def Strategy.frequencies {γ : Type} [Generator γ] (s : Strategy) (draws : Nat)
    (endpoints : List Endpoint) (key : List Endpoint → Option String)
    (state : s.State γ) (commons : Commons γ) : List (String × Nat) × Commons γ :=
  let start : List (String × Nat) × s.State γ × Commons γ := ([], state, commons)
  let (counts, _, commons) := draws.fold (fun _ _ (counts, state, commons) =>
    let r := s.balance state commons "" endpoints
    let counts := match key r.endpoints with
      | some k => countKey counts k
      | none => counts
    (counts, r.state, r.commons)) start
  (counts, commons)

end Tenure
