import Mathlib.Data.List.Nodup
import Mathlib.Logic.Equiv.Basic
import Tenure.Proofs.Balance.Reordering

/-!
# Laying a list out

An order names for every place the one whose element it is to have. A cycle of the order is
followed from its start, exchanging the element of the place reached with that of the next
one; so the element of the start is carried along, and comes to the last place of the cycle.

* `Underway` — what holds on the way: every element is found where `found` says;
* `Underway.step`, `Underway.settled` — one exchange, and the end of a cycle;
* `followCycles?_settles` — after all cycles each place has its element;
* `arrange?_eq` — so the list is laid out in the order given;
* `layout_follows_order` — place by place, and back again in the inverse order.
-/

namespace Tenure

variable {α : Type} {start current : Nat} {order : List Nat} {xs ys : Array α}
  {goal : Nat → Option α}

/-- The place that an order names for a place; beyond the order every place stands for itself. -/
def source (order : List Nat) (p : Nat) : Nat := order.getD p p

theorem source_of_lt {p : Nat} (h : p < order.length) : source order p = order[p] :=
  (List.getElem_eq_getD p).symm

theorem source_of_le {p : Nat} (h : order.length ≤ p) : source order p = p := by
  simp [source, List.getD_eq_getElem?_getD, h]

theorem source_set (order : List Nat) (i : Nat) :
    source (order.set i i) = Function.update (source order) i i := by
  funext p
  simp only [source, List.getD_eq_getElem?_getD, List.getElem?_set, Function.update_apply]
  by_cases hp : i = p
  · subst hp
    by_cases hbound : i < order.length <;> simp [hbound]
  · rw [if_neg hp, if_neg (Ne.symm hp)]

theorem source_set_self (order : List Nat) (i : Nat) : source (order.set i i) i = i := by
  rw [source_set, Function.update_self]

theorem source_set_of_ne (order : List Nat) {i p : Nat} (h : p ≠ i) :
    source (order.set i i) p = source order p := by
  rw [source_set, Function.update_of_ne h]

theorem getElem?_swap (xs : Array α) {i j : Nat} (hi : i < xs.size) (hj : j < xs.size) (p : Nat) :
    (xs.swap i j hi hj)[Equiv.swap i j p]? = xs[p]? := by
  rw [Array.getElem?_swap, Equiv.swap_apply_def]
  by_cases hpi : p = i
  · subst hpi
    simp [hi]
  · by_cases hpj : p = j
    · subst hpj
      rw [if_neg hpi, if_pos rfl]
      split
      · rename_i heq
        exact absurd heq hpi
      · rw [if_pos rfl]
        exact (Array.getElem?_eq_getElem hj).symm
    · rw [if_neg hpi, if_neg hpj, if_neg (Ne.symm hpj), if_neg (Ne.symm hpi)]

/-! ## On the way along a cycle -/

/-- The place where the element for a place is to be found: what stood at the start of the
cycle has been carried along. -/
def found (start current : Nat) (order : List Nat) (p : Nat) : Nat :=
  if source order p = start ∧ p ≠ start then current else source order p

/-- A cycle is being followed: the places passed have their elements and stand for themselves,
and no other place waits for what stands at the current one. -/
structure Underway (start current : Nat) (order : List Nat) (xs : Array α)
    (goal : Nat → Option α) : Prop where
  finds : ∀ p, xs[found start current order p]? = goal p
  injective : Function.Injective (found start current order)
  passed : current ≠ start → source order start = start ∧ ∀ p, source order p ≠ current

theorem found_of_ne {p : Nat} (h : source order p ≠ start) :
    found start current order p = source order p :=
  if_neg fun hstart => h hstart.1

theorem found_start (start : Nat) (order : List Nat) : found start start order = source order := by
  funext p
  unfold found
  split
  · rename_i hstart
    exact hstart.1.symm
  · rfl

namespace Underway

theorem start_of (hfinds : ∀ p, xs[source order p]? = goal p)
    (hinjective : Function.Injective (source order)) (start : Nat) :
    Underway start start order xs goal := by
  refine ⟨fun p => ?_, ?_, fun hne => absurd rfl hne⟩
  · rw [found_start]
    exact hfinds p
  · rw [found_start]
    exact hinjective

/-- An exchange moves what is found at the two places, and nothing else. -/
theorem found_next (h : Underway start current order xs goal)
    (hstart : source order current ≠ start) (hmoves : source order current ≠ current) (p : Nat) :
    found start (source order current) (order.set current current) p =
      Equiv.swap current (source order current) (found start current order p) := by
  by_cases hp : p = current
  · subst hp
    rw [found_of_ne hstart, Equiv.swap_apply_right]
    unfold found
    rw [source_set_self, if_neg fun hwaits => hwaits.2 hwaits.1]
  · by_cases hwaits : source order p = start ∧ p ≠ start
    · unfold found
      rw [source_set_of_ne order hp, if_pos hwaits, if_pos hwaits, Equiv.swap_apply_left]
    · have hfound : found start current order p = source order p := if_neg hwaits
      have hnext : source order p ≠ source order current := by
        intro heq
        apply hp
        apply h.injective
        rw [hfound, found_of_ne hstart, heq]
      have hcurrent : source order p ≠ current := by
        by_cases hfirst : current = start
        · subst hfirst
          intro heq
          exact hwaits ⟨heq, hp⟩
        · exact (h.passed hfirst).2 p
      rw [hfound, Equiv.swap_apply_of_ne_of_ne hcurrent hnext]
      unfold found
      rw [source_set_of_ne order hp, if_neg hwaits]

theorem start_settled (h : Underway start current order xs goal) :
    source (order.set current current) start = start := by
  by_cases hfirst : start = current
  · subst hfirst
    exact source_set_self order start
  · rw [source_set_of_ne order hfirst]
    exact (h.passed (Ne.symm hfirst)).1

/-- One exchange brings its element to the current place. -/
theorem step (h : Underway start current order xs goal)
    (hstart : source order current ≠ start) (hmoves : source order current ≠ current)
    (hcurrent : current < xs.size) (hnext : source order current < xs.size) :
    Underway start (source order current) (order.set current current)
      (xs.swap current (source order current) hcurrent hnext) goal := by
  refine ⟨fun p => ?_, fun p q hpq => ?_, fun _ => ⟨h.start_settled, fun p => ?_⟩⟩
  · rw [h.found_next hstart hmoves, getElem?_swap, h.finds]
  · rw [h.found_next hstart hmoves, h.found_next hstart hmoves] at hpq
    exact h.injective ((Equiv.swap _ _).injective hpq)
  · by_cases hp : p = current
    · subst hp
      rw [source_set_self]
      exact Ne.symm hmoves
    · rw [source_set_of_ne order hp]
      intro heq
      apply hp
      apply h.injective
      rw [found_of_ne hstart, found_of_ne (heq.trans_ne hstart), heq]

/-- Back at its start, or at a place that stands for itself, the cycle is in order. -/
theorem settled (h : Underway start current order xs goal)
    (hstop : source order current = start ∨ source order current = current) :
    source (order.set current current) = found start current order := by
  funext p
  by_cases hfirst : current = start
  · subst hfirst
    have hself : source order current = current := hstop.elim id id
    rw [found_start, source_set, Function.update_eq_self_iff.mpr hself.symm]
  · have hend : source order current = start :=
      hstop.resolve_right ((h.passed hfirst).2 current)
    by_cases hp : p = current
    · subst hp
      rw [source_set_self]
      exact (if_pos ⟨hend, hfirst⟩).symm
    · rw [source_set_of_ne order hp]
      refine (if_neg fun hwaits => hp ?_).symm
      apply h.injective
      unfold found
      rw [if_pos hwaits, if_pos ⟨hend, hfirst⟩]

end Underway

/-! ## All cycles -/

/-- A cycle that was followed to its end is in order, and no place that was so before has
been disturbed. -/
theorem followCycle?_settles {settled : List Nat} (h : Underway start current order xs goal)
    (hrun : followCycle? start current order xs = some (settled, ys)) :
    (∀ p, ys[source settled p]? = goal p) ∧ Function.Injective (source settled) ∧
      source settled start = start ∧ ∀ p, source order p = p → source settled p = p := by
  have hkept : ∀ (order : List Nat) {i p : Nat}, source order p = p →
      source (order.set i i) p = p := by
    intro order i p hp
    by_cases hpi : p = i
    · subst hpi
      exact source_set_self order p
    · rw [source_set_of_ne order hpi, hp]
  fun_induction followCycle? start current order xs with
  | case1 current order xs hbound next settled' hstop =>
      obtain ⟨rfl, rfl⟩ := Prod.mk.inj (Option.some.inj hrun)
      rw [show next = source order current from (source_of_lt hbound).symm] at hstop
      have hsettled := h.settled hstop
      refine ⟨fun p => ?_, ?_, h.start_settled, fun p => hkept order⟩
      · rw [hsettled]
        exact h.finds p
      · rw [hsettled]
        exact h.injective
  | case2 current order xs hbound next settled' hgoes inside ih =>
      have hnext : next = source order current := (source_of_lt hbound).symm
      obtain ⟨hstart, hmoves⟩ := not_or.mp hgoes
      have hstep : Underway start next settled' (xs.swap current next inside.1 inside.2) goal := by
        simp only [hnext] at hstart hmoves inside ⊢
        exact h.step hstart hmoves inside.1 inside.2
      obtain ⟨hfinds, hinjective, hfirst, hlater⟩ := ih hstep hrun
      exact ⟨hfinds, hinjective, hfirst, fun p hp => hlater p (hkept order hp)⟩
  | case3 => cases hrun
  | case4 => cases hrun

/-- Places that may still wait for their elements lie ahead; after the last one, none is left. -/
theorem followCycles?_settles {count : Nat} (hfinds : ∀ p, xs[source order p]? = goal p)
    (hinjective : Function.Injective (source order))
    (hahead : ∀ p, source order p ≠ p → start ≤ p ∧ p < start + count)
    (hrun : followCycles? start count order xs = some ys) (p : Nat) : ys[p]? = goal p := by
  induction count generalizing start order xs with
  | zero =>
      cases hrun
      have hself : source order p = p := by
        by_contra hwaits
        have hbounds := hahead p hwaits
        omega
      rw [← hfinds p, hself]
  | succ count ih =>
      obtain ⟨⟨settled, zs⟩, hcycle, hrest⟩ := Option.bind_eq_some_iff.mp hrun
      obtain ⟨hfinds', hinjective', hfirst, hkept⟩ :=
        followCycle?_settles (Underway.start_of hfinds hinjective start) hcycle
      refine ih hfinds' hinjective' (fun q hwaits => ?_) hrest
      have hbounds := hahead q fun hq => hwaits (hkept q hq)
      have hne : q ≠ start := by
        intro hq
        rw [hq] at hwaits
        exact hwaits hfirst
      omega

/-- An order that names each place once sends different places to different ones. -/
theorem source_injective {n : Nat} (h : order.Perm (List.range n)) :
    Function.Injective (source order) := by
  have hlength : order.length = n := by rw [h.length_eq, List.length_range]
  have hinside : ∀ {p} (hp : p < order.length), source order p < n := by
    intro p hp
    rw [source_of_lt hp]
    exact List.mem_range.mp (h.mem_iff.mp (List.getElem_mem hp))
  have houtside : ∀ {p}, ¬ p < order.length → source order p = p := by
    intro p hp
    exact source_of_le (Nat.not_lt.mp hp)
  intro p q hpq
  by_cases hp : p < order.length
  · by_cases hq : q < order.length
    · have hnodup : order.Nodup := h.nodup_iff.mpr List.nodup_range
      rw [source_of_lt hp, source_of_lt hq] at hpq
      exact (hnodup.getElem_inj_iff).mp hpq
    · have hbound := hinside hp
      rw [hpq, houtside hq] at hbound
      omega
  · by_cases hq : q < order.length
    · have hbound := hinside hq
      rw [← hpq, houtside hp] at hbound
      omega
    · rwa [houtside hp, houtside hq] at hpq

/-- **A list is laid out in the order given.** At each place there is the element of the place
that the order names there. -/
theorem arrange?_eq {order : List Nat} {xs : List α}
    (h : order.Perm (List.range xs.length)) :
    arrange? order xs = some (order.filterMap (xs[·]?)) := by
  have hlength : order.length = xs.length := by rw [h.length_eq, List.length_range]
  have horder : IsOrder xs.length order :=
    ⟨hlength, fun i hi => List.mem_range.mp (h.mem_iff.mp hi)⟩
  obtain ⟨ys, hys⟩ := exists_arrange? horder
  rw [hys]
  obtain ⟨zs, hcycles, rfl⟩ := Option.map_eq_some_iff.mp hys
  have hfinds : ∀ p, xs.toArray[source order p]? = xs[source order p]? := by
    intro p
    rw [List.getElem?_toArray]
  have hsettles := followCycles?_settles hfinds (source_injective h) (fun p hwaits => ?_) hcycles
  · have hplaces : zs.toList.map some = order.map (xs[·]?) := by
      have hsize := (followCycles?_perm hcycles).size_eq
      refine List.ext_getElem (by simpa [hlength] using hsize) fun p hp hp' => ?_
      have hbound : p < order.length := by simpa using hp'
      have hplace := hsettles p
      rw [source_of_lt hbound] at hplace
      rw [List.getElem_map, List.getElem_map, ← hplace, Array.getElem_toList]
      exact (Array.getElem?_eq_getElem _).symm
    have hflat := congrArg (List.filterMap id) hplaces
    rw [List.filterMap_map, List.filterMap_map] at hflat
    simpa using hflat
  · have hbound : p < order.length := by
      by_contra hout
      exact hwaits (source_of_le (Nat.not_lt.mp hout))
    omega

/-! ## Place by place -/

section Places

variable {xs ys : List α} {inverse : List Nat}

theorem getElem?_filterMap_places (hinside : ∀ j ∈ order, j < xs.length) {i j : Nat}
    (hi : order[i]? = some j) : (order.filterMap (xs[·]?))[i]? = xs[j]? := by
  induction order generalizing i with
  | nil => cases hi
  | cons p order ih =>
      obtain ⟨hp, hrest⟩ := List.forall_mem_cons.mp hinside
      rw [List.filterMap_cons_some (List.getElem?_eq_getElem hp)]
      cases i with
      | zero =>
          obtain rfl : p = j := Option.some.inj hi
          exact (List.getElem?_eq_getElem hp).symm
      | succ i => exact ih hrest hi

theorem getElem?_arrange? (h : order.Perm (List.range xs.length))
    (hys : arrange? order xs = some ys) {i j : Nat} (hi : order[i]? = some j) :
    ys[i]? = xs[j]? := by
  obtain rfl : order.filterMap (xs[·]?) = ys :=
    Option.some.inj ((arrange?_eq h).symm.trans hys)
  exact getElem?_filterMap_places (fun j hj => List.mem_range.mp (h.mem_iff.mp hj)) hi

/-- As many places as there are below `n`, none of which is left out. -/
theorem perm_range_of_forall_mem {n : Nat} (hlength : order.length = n)
    (h : ∀ p < n, p ∈ order) : order.Perm (List.range n) := by
  have hsub : List.range n ⊆ order := fun p hp => h p (List.mem_range.mp hp)
  have hshort : order.length ≤ (List.range n).length :=
    Nat.le_of_eq (hlength.trans List.length_range.symm)
  exact ((List.subperm_of_subset List.nodup_range hsub).perm_of_length_le hshort).symm

theorem arrange?_inverse (h : order.Perm (List.range xs.length))
    (hys : arrange? order xs = some ys) (hlength : inverse.length = order.length)
    (hinverse : ∀ i j : Nat, order[i]? = some j → inverse[j]? = some i) :
    arrange? inverse ys = some xs := by
  have hsize := (arrange?_perm hys).length_eq
  have horder : order.length = xs.length := by rw [h.length_eq, List.length_range]
  have hback : inverse.Perm (List.range ys.length) := by
    refine perm_range_of_forall_mem (by rw [hlength, horder, hsize]) fun i hi => ?_
    have hbound : i < order.length := by rwa [horder, ← hsize]
    exact List.mem_of_getElem? (hinverse i _ (List.getElem?_eq_getElem hbound))
  obtain ⟨zs, hzs⟩ : ∃ zs, arrange? inverse ys = some zs := ⟨_, arrange?_eq hback⟩
  rw [hzs]
  refine congrArg some (List.ext_getElem? fun p => ?_)
  by_cases hp : p < xs.length
  · -- the order names the place `p` at some place `i`, and there its element has come to stand
    obtain ⟨i, hi⟩ := List.mem_iff_getElem?.mp (h.mem_iff.mpr (List.mem_range.mpr hp))
    rw [getElem?_arrange? hback hzs (hinverse i p hi), getElem?_arrange? h hys hi]
  · have hrest := (arrange?_perm hzs).length_eq
    rw [List.getElem?_eq_none (by omega), List.getElem?_eq_none (by omega)]

end Places

/-- **A layout follows its order, and not the inverse of it.** Whatever cycles an order of all places
has, following them comes to an end and meets no place that is not there. Then every place has the
element of the place that the order names for it; and laid out once more, in the inverse order, all
elements are back in their places. -/
theorem layout_follows_order (order : List Nat) (xs : List α)
    (h : order.Perm (List.range xs.length)) :
    ∃ ys, arrange? order xs = some ys ∧ ys.length = xs.length ∧
      (∀ i j : Nat, order[i]? = some j → ys[i]? = xs[j]?) ∧
      ∀ inverse : List Nat, inverse.length = order.length →
        (∀ i j : Nat, order[i]? = some j → inverse[j]? = some i) →
        arrange? inverse ys = some xs := by
  obtain ⟨ys, hys⟩ : ∃ ys, arrange? order xs = some ys := ⟨_, arrange?_eq h⟩
  refine ⟨ys, hys, (arrange?_perm hys).length_eq, fun i j hi => ?_,
    fun inverse hlength hinverse => ?_⟩
  · exact getElem?_arrange? h hys hi
  · exact arrange?_inverse h hys hlength hinverse

/-- A cycle of three places, one of two, and a place that stands for itself. -/
theorem layout_follows_order_of_cycles :
    [2, 0, 1, 4, 3, 5].Perm (List.range 6) ∧
      arrange? [2, 0, 1, 4, 3, 5] ['a', 'b', 'c', 'd', 'e', 'f'] =
        some ['c', 'a', 'b', 'e', 'd', 'f'] ∧
      arrange? [1, 2, 0, 4, 3, 5] ['c', 'a', 'b', 'e', 'd', 'f'] =
        some ['a', 'b', 'c', 'd', 'e', 'f'] := by
  have hperm : [2, 0, 1, 4, 3, 5].Perm (List.range 6) := by decide
  obtain ⟨ys, hys, hlength, hplaces, hback⟩ :=
    layout_follows_order [2, 0, 1, 4, 3, 5] ['a', 'b', 'c', 'd', 'e', 'f'] hperm
  obtain rfl : ys = ['c', 'a', 'b', 'e', 'd', 'f'] := by
    refine List.ext_getElem? fun i => ?_
    match i with
    | 0 => exact hplaces 0 2 rfl
    | 1 => exact hplaces 1 0 rfl
    | 2 => exact hplaces 2 1 rfl
    | 3 => exact hplaces 3 4 rfl
    | 4 => exact hplaces 4 3 rfl
    | 5 => exact hplaces 5 5 rfl
    | i + 6 => simp [hlength]
  refine ⟨hperm, hys, hback _ rfl fun i j hi => ?_⟩
  match i, hi with
  | 0, rfl | 1, rfl | 2, rfl | 3, rfl | 4, rfl | 5, rfl => rfl

end Tenure
