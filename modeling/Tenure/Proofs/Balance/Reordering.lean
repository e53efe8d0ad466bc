import Mathlib.Data.List.Perm.Basic
import Tenure.Balance.Strategy

/-!
# Strategies only reorder

A rotation, a stable partition, exchanges of two places and the walk along the cycles of
an order: each leaves the endpoints that it was given, in another order. So does every
strategy, whatever it is built from and whatever it remembers.

* `shuffle_perm` — exchanges with drawn places;
* `arrange?_perm`, `exists_arrange?` — laying a list out loses nothing, and succeeds
  if the order has a place of the list for every place;
* `weightedShuffle_perm`, `weightedShuffle_eq_none_iff` — so a weighted shuffle only reorders,
  whatever the keys are, and there is none exactly if some element has no weight;
* `Strategy.balance_reorders` — every strategy.
-/

namespace Tenure

open Numeric

variable {α γ : Type}

/-! ## Uniform shuffles -/

theorem shuffleFrom_perm [Generator γ] {n : Nat} (i : Nat) (g : γ) (xs : Vector α n) :
    (shuffleFrom i g xs).1.toList.Perm xs.toList := by
  fun_induction shuffleFrom i g xs with
  | case1 i g xs h drawn ih => exact ih.trans (Vector.swap_perm _ _).toList
  | case2 i g xs h => exact .refl _

theorem shuffle_perm [Generator γ] (g : γ) (xs : List α) : (shuffle g xs).1.Perm xs :=
  shuffleFrom_perm 1 g xs.toArray.toVector

/-! ## Laying a list out -/

/-- Following a cycle exchanges elements, and keeps the places of the order within bounds. -/
theorem followCycle?_perm {start current : Nat} {order settled : List Nat} {xs ys : Array α}
    (h : followCycle? start current order xs = some (settled, ys)) : ys.Perm xs := by
  fun_induction followCycle? start current order xs with
  | case1 =>
      obtain ⟨_, rfl⟩ := Prod.mk.inj (Option.some.inj h)
      exact .refl _
  | case2 current order xs _ _ _ _ _ ih => exact (ih h).trans (Array.swap_perm _ _)
  | case3 => cases h
  | case4 => cases h

/-- An order for a list of length `n`: a place below `n` for each of its places. -/
structure IsOrder (n : Nat) (order : List Nat) : Prop where
  length : order.length = n
  places : ∀ i ∈ order, i < n

theorem IsOrder.set {n : Nat} {order : List Nat} (h : IsOrder n order) {i : Nat} (hi : i < n) :
    IsOrder n (order.set i i) := by
  refine ⟨by rw [List.length_set, h.length], fun j hj => ?_⟩
  rcases List.mem_or_eq_of_mem_set hj with hold | rfl
  · exact h.places j hold
  · exact hi

/-- Within bounds, a cycle is followed to its end. -/
theorem exists_followCycle? (start : Nat) {current : Nat} {order : List Nat} {xs : Array α}
    (horder : IsOrder xs.size order) (hcurrent : current < xs.size) :
    ∃ settled ys, followCycle? start current order xs = some (settled, ys) ∧
      IsOrder ys.size settled := by
  fun_induction followCycle? start current order xs with
  | case1 current order xs _ _ settled _ => exact ⟨settled, xs, rfl, horder.set hcurrent⟩
  | case2 current order xs _ next settled _ inside ih =>
      apply ih
      · rw [Array.size_swap]
        exact horder.set hcurrent
      · rw [Array.size_swap]
        exact inside.2
  | case3 current order xs h next _ outside =>
      exact absurd ⟨hcurrent, horder.places _ (List.getElem_mem h)⟩ outside
  | case4 current order xs h => exact absurd (horder.length ▸ hcurrent) h

theorem followCycles?_perm {start count : Nat} {order : List Nat} {xs ys : Array α}
    (h : followCycles? start count order xs = some ys) : ys.Perm xs := by
  induction count generalizing start order xs with
  | zero => cases h; exact .refl _
  | succ count ih =>
      obtain ⟨⟨settled, zs⟩, hcycle, hrest⟩ := Option.bind_eq_some_iff.mp h
      exact (ih hrest).trans (followCycle?_perm hcycle)

theorem exists_followCycles? {start count : Nat} {order : List Nat} {xs : Array α}
    (horder : IsOrder xs.size order) (hcount : start + count ≤ xs.size) :
    ∃ ys, followCycles? start count order xs = some ys := by
  induction count generalizing start order xs with
  | zero => exact ⟨xs, rfl⟩
  | succ count ih =>
      have hstart : start < xs.size := by omega
      obtain ⟨settled, zs, hcycle, hsettled⟩ := exists_followCycle? start horder hstart
      have hsize := (followCycle?_perm hcycle).size_eq
      have hlater : start + 1 + count ≤ zs.size := by omega
      obtain ⟨ys, hrest⟩ := ih hsettled hlater
      exact ⟨ys, Option.bind_eq_some_iff.mpr ⟨_, hcycle, hrest⟩⟩

theorem arrange?_perm {order : List Nat} {xs ys : List α} (h : arrange? order xs = some ys) :
    ys.Perm xs := by
  obtain ⟨zs, hcycles, rfl⟩ := Option.map_eq_some_iff.mp h
  exact (followCycles?_perm hcycles).toList

theorem exists_arrange? {order : List Nat} {xs : List α} (h : IsOrder xs.length order) :
    ∃ ys, arrange? order xs = some ys := by
  have hall : 0 + xs.length ≤ xs.toArray.size := by simp
  obtain ⟨zs, hcycles⟩ := exists_followCycles? h hall
  exact ⟨zs.toList, congrArg (Option.map Array.toList) hcycles⟩

/-! ## Weighted shuffles -/

/-- Sorting the keys lists their places, each of them once. -/
theorem ascending_perm (keys : List Binary64) : (ascending keys).Perm (List.range keys.length) := by
  have hsorted := (List.mergeSort_perm keys.zipIdx fun a b => a.1.totalLE b.1).map Prod.snd
  refine hsorted.trans (.of_eq ?_)
  rw [List.zipIdx_map_snd, List.range_eq_range']

theorem isOrder_ascending (keys : List Binary64) : IsOrder keys.length (ascending keys) := by
  have hplaces := ascending_perm keys
  refine ⟨by rw [hplaces.length_eq, List.length_range], fun i hi => ?_⟩
  exact List.mem_range.mp (hplaces.mem_iff.mp hi)

theorem length_drawKeys [Generator γ] {weight : α → Option Binary64} {g : γ} {xs : List α}
    {keys : List Binary64} (h : (drawKeys weight g xs).1 = some keys) :
    keys.length = xs.length := by
  induction xs generalizing g keys with
  | nil => cases h; rfl
  | cons x rest ih =>
      unfold drawKeys at h
      split at h
      · cases h
      · obtain ⟨later, hlater, rfl⟩ := Option.map_eq_some_iff.mp h
        exact congrArg (· + 1) (ih hlater)

theorem drawKeys_eq_none_iff [Generator γ] {weight : α → Option Binary64} {g : γ} {xs : List α} :
    (drawKeys weight g xs).1 = none ↔ ∃ x ∈ xs, weight x = none := by
  induction xs generalizing g with
  | nil => simp [drawKeys]
  | cons x rest ih =>
      rw [drawKeys, List.exists_mem_cons_iff]
      cases hx : weight x with
      | none => simp
      | some w => simp [ih]

theorem weightedShuffle_perm [Generator γ] {weight : α → Option Binary64} {g : γ}
    {xs ys : List α} (h : (weightedShuffle weight g xs).1 = some ys) : ys.Perm xs := by
  obtain ⟨keys, _, harranged⟩ := Option.bind_eq_some_iff.mp h
  exact arrange?_perm harranged

/-- A list for whose elements there are keys can be laid out, so only a weight can be missing. -/
theorem weightedShuffle_eq_none_iff [Generator γ] {weight : α → Option Binary64} {g : γ}
    {xs : List α} : (weightedShuffle weight g xs).1 = none ↔ ∃ x ∈ xs, weight x = none := by
  rw [← drawKeys_eq_none_iff (g := g)]
  show (drawKeys weight g xs).1.bind (fun keys => arrange? (ascending keys) xs) = none ↔ _
  cases hkeys : (drawKeys weight g xs).1 with
  | none => simp
  | some keys =>
      obtain ⟨ys, hys⟩ := exists_arrange? (length_drawKeys hkeys ▸ isOrder_ascending keys)
      simp [hys]

theorem exists_weightedShuffle [Generator γ] {weight : α → Option Binary64}
    (hweight : ∀ x, (weight x).isSome = true) (g : γ) (xs : List α) :
    ∃ ys, (weightedShuffle weight g xs).1 = some ys := by
  refine Option.ne_none_iff_exists'.mp fun hnone => ?_
  obtain ⟨x, -, hx⟩ := weightedShuffle_eq_none_iff.mp hnone
  exact absurd (hweight x) (by rw [hx]; decide)

/-! ## Recorded draws -/

/-- Draws that were written down beforehand, the places apart from the magnitudes. Where
they have run out, the place is the first one and the magnitude zero. -/
structure Draws where
  places : List Nat := []
  magnitudes : List Binary64 := []

instance : Generator Draws where
  place g last := (⟨g.places.headD 0 % (last + 1), Nat.mod_lt _ (Nat.succ_pos last)⟩,
    { g with places := g.places.tail })
  exponential g := (g.magnitudes.headD .zero, { g with magnitudes := g.magnitudes.tail })

/-! ## Strategies -/

/-- What is lent a generator is run on one. -/
theorem Pooling.exists_lend {β : Type} (p : Pooling) (state : p.State γ) (commons : Commons γ)
    (use : γ → β × γ) : ∃ g, (p.lend state commons use).1 = (use g).1 := by
  cases p with
  | shared => exact ⟨(commons.pool.checkOut commons.entropy).1, rfl⟩
  | own => exact ⟨(Pool.checkOut state commons.entropy).1, rfl⟩

theorem rotateLeft_perm (xs : List α) (n : Nat) : (xs.rotateLeft n).Perm xs := by
  unfold List.rotateLeft
  dsimp only
  split
  · exact .refl _
  · refine List.perm_append_comm.trans (.of_eq ?_)
    exact List.take_append_drop ..

namespace Strategy

/-- Every weight function of the strategy gives every endpoint a weight. -/
def Weighs : Strategy → Prop
  | weighted weight _ => ∀ e, (weight e).isSome = true
  | andThen first second => first.Weighs ∧ second.Weighs
  | perService factory => ∀ k, (factory k).Weighs
  | _ => True

variable [Generator γ]

/-- A strategy that fails halfway leaves what the strategies before it have made of the list. -/
theorem balance_perm (s : Strategy) (state : s.State γ) (commons : Commons γ) (service : String)
    (endpoints : List Endpoint) :
    (s.balance state commons service endpoints).endpoints.Perm endpoints := by
  induction s generalizing commons endpoints with
  | roundRobin =>
      unfold balance
      split
      · exact .refl _
      · exact rotateLeft_perm ..
  | preferTags tags =>
      unfold balance
      split
      · exact .refl _
      · rw [List.partition_eq_filter_filter]
        exact List.filter_append_perm ..
  | shuffler pooling =>
      obtain ⟨g, hg⟩ := pooling.exists_lend state commons (shuffle · endpoints)
      unfold balance
      dsimp only
      rw [hg]
      exact shuffle_perm g endpoints
  | weighted weight pooling =>
      obtain ⟨g, hg⟩ := pooling.exists_lend state commons (weightedShuffle weight · endpoints)
      unfold balance
      dsimp only
      split
      · rename_i ys hys
        exact weightedShuffle_perm (hg.symm.trans hys)
      · exact .refl _
  | identity => exact .refl _
  | andThen first second ihFirst ihSecond =>
      have hfirst := ihFirst state.1 commons endpoints
      unfold balance
      dsimp only
      split
      · exact hfirst
      · exact (ihSecond state.2 _ _).trans hfirst
  | perService factory ih =>
      unfold balance
      dsimp only
      split
      · exact ih _ _ _ endpoints
      · exact ih _ _ _ endpoints

/-- A strategy whose weight functions do not fail does not fail. -/
theorem balance_succeeds {s : Strategy} (hs : s.Weighs) (state : s.State γ) (commons : Commons γ)
    (service : String) (endpoints : List Endpoint) :
    (s.balance state commons service endpoints).failed = false := by
  induction s generalizing commons endpoints with
  | roundRobin => unfold balance; split <;> rfl
  | preferTags tags => unfold balance; split <;> rfl
  | shuffler pooling => rfl
  | weighted weight pooling =>
      obtain ⟨g, hg⟩ := pooling.exists_lend state commons (weightedShuffle weight · endpoints)
      obtain ⟨ys, hys⟩ := exists_weightedShuffle hs g endpoints
      unfold balance
      dsimp only
      split
      · rfl
      · rename_i hnone
        exact absurd ((hg.trans hys).symm.trans hnone) (by simp)
  | identity => rfl
  | andThen first second ihFirst ihSecond =>
      have hfirst := ihFirst hs.1 state.1 commons endpoints
      unfold balance
      dsimp only
      rw [hfirst, if_neg Bool.false_ne_true]
      exact ihSecond hs.2 state.2 _ _
  | perService factory ih =>
      unfold balance
      dsimp only
      split
      · exact ih _ (hs _) _ _ endpoints
      · exact ih _ (hs _) _ _ endpoints

/-- **Strategies only reorder.** Whatever a strategy is built from, whatever it remembers
and whatever is drawn, the list that it leaves has the endpoints that it was given, each
as often as before; so a list with fewer than two is left as it is. It does leave a list,
unless one of its weight functions fails. -/
theorem balance_reorders (s : Strategy) (hs : s.Weighs) (state : s.State γ) (commons : Commons γ)
    (service : String) (endpoints : List Endpoint) :
    let r := s.balance state commons service endpoints
    r.failed = false ∧ r.endpoints.Perm endpoints ∧
      (endpoints.length ≤ 1 → r.endpoints = endpoints) := by
  intro r
  have hperm := s.balance_perm state commons service endpoints
  refine ⟨balance_succeeds hs state commons service endpoints, hperm, fun hshort => ?_⟩
  rcases endpoints with _ | ⟨e, _ | ⟨_, _⟩⟩
  · exact hperm.eq_nil
  · exact List.perm_singleton.mp hperm
  · exact absurd hshort (by simp)

/-- Weights that no order of numbers covers: a NaN, an infinite and a negative one. -/
def unrulyWeight (e : Endpoint) : Option Binary64 :=
  some <|
    if e.id = "nowhere" then .nan false
    else if e.id = "bottomless" then .infinite true
    else if e.id = "owing" then .finite true unitsPerOne
    else e.rttWeight

/-- Every kind of strategy, behind a load balancer whose strategies are load balancers: the
first service has a rotation, and those after it have everything. -/
def unruly : Strategy :=
  perService fun k => perService <| if k = 0 then roundRobin else sequence
    [preferTags ["canary"], weighted unrulyWeight .own, shuffler .shared, roundRobin]

/-- Endpoints with every one of these weights, one of them twice. -/
def motley : List Endpoint :=
  [{ id := "nowhere", addr := "10.0.0.1:80" },
   { id := "bottomless", addr := "10.0.0.2:80", tags := ["canary"] },
   { id := "owing", addr := "10.0.0.3:80" }, { id := "owing", addr := "10.0.0.3:80" },
   { id := "near", node := "west", addr := "10.0.0.4:80", rtt := ⟨250000, by decide⟩ }]

/-- Two generators: one for places, and one whose draws make keys that are not numbers. -/
def rigged : Commons Draws :=
  { entropy := { seed := fun k =>
      if k = 0 then { magnitudes := [.ofNat 2, .zero, .infinite false, .ofNat 1, .nan true] }
      else { places := [1, 0, 3, 1] } } }

/-- The second call for a service, after one for another service. -/
theorem balance_reorders_of_unruly :
    let first := unruly.balance (unruly.fresh Draws) rigged "billing" motley.reverse
    let r := unruly.balance first.state first.commons "orders" motley
    unruly.Weighs ∧ r.failed = false ∧ r.endpoints.Perm motley ∧
      (motley.length ≤ 1 → r.endpoints = motley) := by
  intro first r
  have hweighs : unruly.Weighs := by
    intro k _
    by_cases hfirst : k = 0
    · rw [if_pos hfirst]
      trivial
    · rw [if_neg hfirst]
      exact ⟨trivial, fun _ => rfl, trivial, trivial, trivial⟩
  exact ⟨hweighs, balance_reorders unruly hweighs first.state first.commons "orders" motley⟩

end Strategy

end Tenure
