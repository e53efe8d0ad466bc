import Mathlib.Data.List.Rotate
import Tenure.Proofs.Balance.Preference

/-!
# Rotations are fair

A rotation counts the calls with a list that is not empty, whatever the lists are, and turns
each of these lists by its count. So the lists of any length come in turn: of as many calls
in a row as a list has endpoints, all of them with that list, each endpoint is first in one.
The same holds behind preferences, which remember nothing.

* `Strategy.Counted` — what such a strategy remembers is one count;
* `Strategy.Counted.balance`, `Strategy.Counted.answers` — the step and the run;
* `Strategy.rotation_fair` — the turns, and the endpoints that come first.
-/

namespace Tenure

variable {γ : Type} {preferences : List (List String)}

theorem rotateLeft_eq_rotate {α : Type} (xs : List α) (n : Nat) :
    xs.rotateLeft n = xs.rotate n := by
  rw [List.rotate_eq_drop_append_take_mod]
  unfold List.rotateLeft
  dsimp only
  split
  · rename_i hshort
    have hzero : n % xs.length = 0 ∨ xs = [] := by
      rcases xs with _ | ⟨x, rest⟩
      · exact .inr rfl
      · have hone : (x :: rest).length = 1 := by
          simp only [List.length_cons] at hshort ⊢
          omega
        rw [hone]
        exact .inl (Nat.mod_one n)
    rcases hzero with hzero | rfl
    · simp [hzero]
    · simp
  · rfl

namespace Strategy

theorem Balanced.ext {σ : Type} {r q : Balanced γ σ} (state : r.state = q.state)
    (commons : r.commons = q.commons) (endpoints : r.endpoints = q.endpoints)
    (failed : r.failed = q.failed) : r = q := by
  cases r
  cases q
  simp only at state commons endpoints failed
  subst state commons endpoints failed
  rfl

/-! ## The count -/

/-- A rotation that has counted to `turn`. -/
def rotating (γ : Type) (turn : UInt64) : Held γ := ⟨roundRobin, turn⟩

/-- Preferences with a rotation behind them that has counted to `turn`. -/
def Counted (s : Strategy) (preferences : List (List String)) (state : s.State γ)
    (turn : UInt64) : Prop :=
  s.held state = preferringParts γ preferences ++ [rotating γ turn]

theorem exists_counted {s : Strategy} (hs : s.parts = preferences.map preferTags ++ [roundRobin])
    (state : s.State γ) : ∃ turn, s.Counted preferences state turn := by
  obtain ⟨front, back, hheld, hfront, hback⟩ :=
    List.map_eq_append_iff.mp ((s.map_fst_held state).trans hs)
  obtain ⟨⟨t, turn⟩, rest, rfl, ht, hrest⟩ := List.map_eq_cons_iff.mp hback
  obtain rfl : t = roundRobin := ht
  obtain rfl := List.map_eq_nil_iff.mp hrest
  rw [eq_preferringParts hfront] at hheld
  exact ⟨turn, hheld⟩

theorem counted_fresh {s : Strategy} (hs : s.parts = preferences.map preferTags ++ [roundRobin]) :
    s.Counted preferences (s.fresh γ) 0 := by
  unfold Counted
  rw [held_fresh, hs, List.map_append, List.map_map]
  rfl

/-! ## One call -/

variable [Generator γ]

theorem balance_roundRobin (turn : roundRobin.State γ) (commons : Commons γ) (service : String)
    {endpoints : List Endpoint} (h : endpoints ≠ []) :
    roundRobin.balance turn commons service endpoints =
      { state := UInt64.add turn 1, commons,
        endpoints := endpoints.rotate (UInt64.add turn 1).toNat } := by
  unfold balance
  split
  · rename_i hempty
    exact absurd (List.isEmpty_iff.mp hempty) h
  · rw [← rotateLeft_eq_rotate]

theorem apply_rotating (turn : UInt64) (commons : Commons γ) (service : String)
    {endpoints : List Endpoint} (h : endpoints ≠ []) :
    apply [rotating γ turn] commons service endpoints =
      { state := [rotating γ (turn + 1)], commons,
        endpoints := endpoints.rotate (turn + 1).toNat } := by
  refine (apply_singleton roundRobin turn commons service endpoints).trans ?_
  rw [balance_roundRobin turn commons service h]
  rfl

theorem apply_rotating_nil (turn : UInt64) (commons : Commons γ) (service : String) :
    apply [rotating γ turn] commons service [] =
      { state := [rotating γ turn], commons, endpoints := [] } := rfl

namespace Counted

variable {s : Strategy} {state : s.State γ} {turn : UInt64}

/-- What the parts do, the preferences and then the rotation. -/
theorem apply (h : s.Counted preferences state turn) (commons : Commons γ) (service : String)
    (endpoints : List Endpoint) :
    let r := s.balance state commons service endpoints
    let q := Strategy.apply [rotating γ turn] commons service (preferring preferences endpoints)
    s.held r.state = preferringParts γ preferences ++ q.state ∧ r.commons = q.commons ∧
      r.endpoints = q.endpoints ∧ r.failed = q.failed := by
  have hparts := held_balance s state commons service endpoints
  rw [h, apply_append, apply_preferringParts] at hparts
  exact ⟨(congrArg Balanced.state hparts).symm, (congrArg Balanced.commons hparts).symm,
    (congrArg Balanced.endpoints hparts).symm, (congrArg Balanced.failed hparts).symm⟩

/-- An empty list is left alone, and its call not counted. -/
theorem balance_nil (h : s.Counted preferences state turn) (commons : Commons γ)
    (service : String) :
    s.balance state commons service [] = { state, commons, endpoints := [] } := by
  obtain ⟨hstate, hcommons, hendpoints, hfailed⟩ := h.apply commons service []
  rw [preferring_nil, apply_rotating_nil] at hstate hcommons hendpoints hfailed
  have hsame := held_injective s (hstate.trans h.symm)
  exact Balanced.ext hsame hcommons hendpoints hfailed

/-- The step: any other list is turned by the next count. -/
theorem balance (h : s.Counted preferences state turn) (commons : Commons γ) (service : String)
    {endpoints : List Endpoint} (hne : endpoints ≠ []) :
    let r := s.balance state commons service endpoints
    r.endpoints = (preferring preferences endpoints).rotate (turn + 1).toNat ∧
      s.Counted preferences r.state (turn + 1) := by
  obtain ⟨hstate, -, hendpoints, -⟩ := h.apply commons service endpoints
  rw [apply_rotating turn commons service (preferring_ne_nil preferences hne)]
    at hstate hendpoints
  exact ⟨hendpoints, hstate⟩

end Counted

/-! ## Calls one after the other -/

/-- Calls one after the other: the list that each is made with, and what it leaves of it. -/
def answers (s : Strategy) : s.State γ × Commons γ → List (String × List Endpoint) →
    List (List Endpoint × List Endpoint)
  | _, [] => []
  | start, (service, endpoints) :: later =>
    let r := s.balance start.1 start.2 service endpoints
    (endpoints, r.endpoints) :: s.answers (r.state, r.commons) later

/-- The run: the calls with lists that are not empty are counted one by one. -/
theorem Counted.answers {s : Strategy} {state : s.State γ} {turn : UInt64}
    (h : s.Counted preferences state turn) (commons : Commons γ)
    (calls : List (String × List Endpoint))
    (hcalls : turn.toNat + calls.countP (!·.2.isEmpty) < UInt64.size) :
    (s.answers (state, commons) calls).filter (!·.1.isEmpty) =
      ((calls.map (·.2)).filter (!·.isEmpty)).mapIdx fun k endpoints =>
        (endpoints, (preferring preferences endpoints).rotate (turn.toNat + k + 1)) := by
  induction calls generalizing state turn commons with
  | nil => rfl
  | cons call later ih =>
      obtain ⟨service, endpoints⟩ := call
      by_cases hempty : endpoints = []
      · subst hempty
        rw [List.countP_cons_of_neg (by simp)] at hcalls
        have hrest := ih h commons hcalls
        simp only [Strategy.answers, h.balance_nil]
        simpa using hrest
      · have hcounts : (!endpoints.isEmpty) = true := by simpa using hempty
        rw [List.countP_cons_of_pos (a := (service, endpoints)) hcounts] at hcalls
        obtain ⟨hturned, hcounted⟩ := h.balance commons service hempty
        have hturn : (turn + 1).toNat = turn.toNat + 1 := by
          rw [UInt64.toNat_add]
          exact Nat.mod_eq_of_lt (by change turn.toNat + 1 < UInt64.size; omega)
        have hrest := ih hcounted (s.balance state commons service endpoints).commons
          (by rw [hturn]; omega)
        simp only [Strategy.answers, List.map_cons, List.filter_cons, hcounts, if_true]
        rw [hrest, List.mapIdx_cons, hturned, hturn]
        have hlater : ∀ k, turn.toNat + 1 + k + 1 = turn.toNat + (k + 1) + 1 := by omega
        simp only [hlater, Nat.add_zero]

/-! ## Fairness -/

/-- Of a whole round of turns the first elements are the elements, in their order from the
first turn on. -/
theorem heads_of_round {α : Type} {xs : List α} {window : List (List α)} {turn : Nat}
    (hlength : window.length = xs.length)
    (hturns : ∀ i (hi : i < window.length), window[i] = xs.rotate (turn + i)) :
    window.map List.head? = (xs.rotate turn).map some := by
  refine List.ext_getElem (by simp [hlength]) fun i hi hi' => ?_
  have hbound : i < window.length := by simpa using hi
  have hpos : 0 < xs.length := by omega
  rw [List.getElem_map, List.getElem_map, hturns i hbound, List.getElem_rotate,
    ← List.rotate_mod, List.head?_rotate (Nat.mod_lt _ hpos), Nat.add_comm turn i,
    List.getElem?_eq_getElem]

/-- **Rotations are fair.** A rotation, behind preferences or on its own, turns the list of the
`k`-th call that has one by `k` modulo its length, after the preferences have ordered it;
calls with an empty list change nothing. So wherever there are as many of the counted
calls in a row as a list has endpoints, all of them with that list, the first ones are the
endpoints in the order of preference, from a place on; each of them once if they differ. -/
theorem rotation_fair (s : Strategy) (preferences : List (List String))
    (hs : s.parts = preferences.map preferTags ++ [roundRobin]) (commons : Commons γ)
    (calls : List (String × List Endpoint))
    (hcalls : calls.countP (!·.2.isEmpty) < UInt64.size) :
    let counted := (s.answers (s.fresh γ, commons) calls).filter (!·.1.isEmpty)
    counted = ((calls.map (·.2)).filter (!·.isEmpty)).mapIdx (fun k endpoints =>
        (endpoints, (preferring preferences endpoints).rotate ((k + 1) % endpoints.length))) ∧
      (∀ (state : s.State γ) (commons : Commons γ) (service : String),
        s.balance state commons service [] = { state, commons, endpoints := [] }) ∧
      ∀ past window later endpoints, counted = past ++ window ++ later →
        (∀ c ∈ window, c.1 = endpoints) → window.length = endpoints.length →
          window.map (·.2.head?) =
              ((preferring preferences endpoints).rotate (past.length + 1)).map some ∧
            (endpoints.Nodup → ∀ e ∈ endpoints, (window.map (·.2.head?)).count (some e) = 1) := by
  intro counted
  have hrun := (counted_fresh hs).answers commons calls (by simpa using hcalls)
  have hturns : ∀ k c, counted[k]? = some c →
      c.2 = (preferring preferences c.1).rotate (k + 1) := by
    intro k c hc
    obtain ⟨endpoints, -, rfl⟩ : ∃ endpoints,
        ((calls.map (·.2)).filter (!·.isEmpty))[k]? = some endpoints ∧
          (endpoints, (preferring preferences endpoints).rotate (0 + k + 1)) = c := by
      rw [show counted = _ from hrun, List.getElem?_mapIdx] at hc
      exact Option.map_eq_some_iff.mp hc
    rw [Nat.zero_add]
  refine ⟨?_, ?_, ?_⟩
  · refine hrun.trans (List.mapIdx_eq_mapIdx_iff.mpr fun k hk => ?_)
    rw [← (preferring_perm preferences _).length_eq, List.rotate_mod]
    rw [show (0 : UInt64).toNat = 0 from rfl, Nat.zero_add]
  · intro state commons' service
    obtain ⟨turn, hturn⟩ := exists_counted hs state
    exact hturn.balance_nil commons' service
  · intro past window later endpoints hsplit hsame hlength
    have hperm := preferring_perm preferences endpoints
    have hheads : window.map (·.2.head?) =
        ((preferring preferences endpoints).rotate (past.length + 1)).map some := by
      have hround : ∀ i (hi : i < (window.map (·.2)).length), (window.map (·.2))[i] =
          (preferring preferences endpoints).rotate (past.length + 1 + i) := by
        intro i hi
        have hi' : i < window.length := by simpa using hi
        have hat : counted[past.length + i]? = some window[i] := by
          rw [hsplit, List.append_assoc, List.getElem?_append_right (Nat.le_add_right _ _),
            Nat.add_sub_cancel_left, List.getElem?_append_left hi', List.getElem?_eq_getElem hi']
        have hturn := hturns _ _ hat
        rw [hsame _ (List.getElem_mem hi'), Nat.add_right_comm] at hturn
        rw [List.getElem_map, hturn]
      have hall := heads_of_round (by rw [List.length_map, hlength, hperm.length_eq]) hround
      rwa [List.map_map] at hall
    refine ⟨hheads, fun hdistinct e he => ?_⟩
    rw [hheads]
    refine List.count_eq_one_of_mem ?_ ?_
    · exact (List.nodup_rotate.mpr (hperm.nodup_iff.mpr hdistinct)).map fun _ _ => Option.some.inj
    · exact List.mem_map_of_mem (List.mem_rotate.mpr (hperm.mem_iff.mpr he))

/-- A preference and a rotation, in sequences of their own. -/
def turnstile : Strategy :=
  andThen (sequence [preferTags ["canary"], sequence []]) (andThen roundRobin identity)

/-- Three endpoints, the second one preferred. -/
def fleet : List Endpoint :=
  [{ id := "a", addr := "10.0.0.1:80" }, { id := "b", addr := "10.0.0.2:80", tags := ["canary"] },
    { id := "c", addr := "10.0.0.3:80" }]

/-- Calls for two services, with lists of three lengths. -/
def shifting : List (String × List Endpoint) :=
  [("orders", crowd), ("orders", []), ("billing", fleet), ("orders", fleet), ("orders", []),
    ("billing", fleet), ("orders", fleet.reverse)]

/-- The second to the fourth call that count are those with the same three endpoints. -/
theorem rotation_fair_of_shifting :
    let counted := (turnstile.answers (turnstile.fresh Draws, rigged) shifting).filter
      (!·.1.isEmpty)
    let window := (counted.drop 1).take 3
    turnstile.parts = [["canary"]].map preferTags ++ [roundRobin] ∧
      shifting.countP (!·.2.isEmpty) < UInt64.size ∧
      counted = counted.take 1 ++ window ++ counted.drop 4 ∧
      (∀ c ∈ window, c.1 = fleet) ∧ window.length = fleet.length ∧ fleet.Nodup ∧
      window.map (·.2.head?) = ((preferring [["canary"]] fleet).rotate 2).map some ∧
      (∀ e ∈ fleet, (window.map (·.2.head?)).count (some e) = 1) ∧
      window.map (·.2.map (·.id)) = [["c", "b", "a"], ["b", "a", "c"], ["a", "c", "b"]] := by
  intro counted window
  have hparts : turnstile.parts = [["canary"]].map preferTags ++ [roundRobin] := rfl
  have hcalls : shifting.countP (!·.2.isEmpty) < UInt64.size := by decide
  have hsplit : counted = counted.take 1 ++ window ++ counted.drop 4 := by decide +kernel
  have hsame : ∀ c ∈ window, c.1 = fleet := by decide +kernel
  have hlength : window.length = fleet.length := by decide +kernel
  have hdistinct : fleet.Nodup := by decide
  obtain ⟨-, -, hrounds⟩ := rotation_fair turnstile [["canary"]] hparts rigged shifting hcalls
  obtain ⟨hheads, honce⟩ := hrounds _ window _ fleet hsplit hsame hlength
  exact ⟨hparts, hcalls, hsplit, hsame, hlength, hdistinct, hheads, honce hdistinct,
    by decide +kernel⟩

end Strategy

end Tenure
