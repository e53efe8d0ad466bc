import Tenure.Proofs.Balance.Latency
import Tenure.Proofs.Numeric.Largest

/-!
# Lists without round-trip times

Where no round-trip time is known, all endpoints have the same weight, the largest finite double,
and only the draws can tell them apart. They do as long as the products are finite, which they are
for draws up to one; the products with all larger draws are infinite. So the endpoints with a draw
up to one come first, by ascending draw, and the others follow as they stood.

* `keyBefore_largest` — which draws the weight keeps apart (`drawBefore`);
* `exists_weightedShuffle_unmeasured` — the order is the stable sort by that;
* `ascending_iff` — when it is the order of the draws;
* `unmeasured_by_draw_iff` — where each endpoint stands, and when all stand by their draws;
* `not_every_draw_decides` — two draws above one that do not decide.
-/

namespace Tenure

open Numeric

variable {α γ : Type} {a b : α × Binary64}

/-! ## Draws -/

/-- The elements with their draws. -/
def drawn [Generator γ] (g : γ) (xs : List α) : List (α × Binary64) :=
  xs.mapIdx fun i x => (x, magnitude g i)

theorem keyed_const [Generator γ] (w : Binary64) (g : γ) (xs : List α) :
    keyed (fun _ => w) g xs = (drawn g xs).map fun a => (a.1, w * a.2) := by
  refine List.ext_getElem (by simp [drawn, keyed]) fun i hi hi' => ?_
  simp [drawn, keyed]

section Drawn

variable [Generator γ] {g : γ} {xs : List α}

theorem getElem?_drawn {i : Nat} (ha : (drawn g xs)[i]? = some a) :
    i < xs.length ∧ magnitude g i = a.2 := by
  rw [drawn, List.getElem?_mapIdx] at ha
  obtain ⟨x, hx, rfl⟩ := Option.map_eq_some_iff.mp ha
  exact ⟨(List.getElem?_eq_some_iff.mp hx).1, rfl⟩

theorem isPositive_of_mem (hdraws : ∀ i < xs.length, (magnitude g i).IsPositive)
    (ha : a ∈ drawn g xs) : a.2.IsPositive := by
  obtain ⟨i, hi⟩ := List.mem_iff_getElem?.mp ha
  obtain ⟨hbound, heq⟩ := getElem?_drawn hi
  exact heq ▸ hdraws i hbound

theorem pairwise_drawn (hdraws : ∀ i < xs.length, (magnitude g i).IsPositive)
    (hapart : ∀ i < xs.length, ∀ j < i, magnitude g j ≠ magnitude g i) :
    (drawn g xs).Pairwise fun a b => a.2.rank ≠ b.2.rank := by
  refine List.pairwise_iff_getElem.mpr fun j i hj hi hji heq => ?_
  obtain ⟨hjbound, hj'⟩ := getElem?_drawn (List.getElem?_eq_getElem hj)
  obtain ⟨hibound, hi'⟩ := getElem?_drawn (List.getElem?_eq_getElem hi)
  rw [← hj', ← hi'] at heq
  exact hapart i hibound j hji ((hdraws j hjbound).rank_injective (hdraws i hibound) heq)

end Drawn

/-! ## What the largest weight keeps apart -/

/-- Whether a draw is above one. -/
def aboveOne (a : α × Binary64) : Bool := (unitsPerOne : Int) < a.2.rank

/-- Whether the first draw is below the second one, and not above one. -/
def drawBefore (a b : α × Binary64) : Bool := a.2.rank < b.2.rank && !aboveOne a

theorem aboveOne_iff : aboveOne a = true ↔ unitsPerOne < a.2.rank := decide_eq_true_iff

theorem aboveOne_eq_false_iff : aboveOne a = false ↔ a.2.rank ≤ unitsPerOne := by
  rw [← Bool.not_eq_true, aboveOne_iff, Int.not_lt]

theorem drawBefore_iff :
    drawBefore a b = true ↔ a.2.rank < b.2.rank ∧ a.2.rank ≤ unitsPerOne := by
  rw [drawBefore, Bool.and_eq_true, decide_eq_true_iff, Bool.not_eq_true', aboveOne_eq_false_iff]

theorem drawBefore_eq_false_iff :
    drawBefore a b = false ↔ b.2.rank ≤ a.2.rank ∨ unitsPerOne < a.2.rank := by
  rw [← Bool.not_eq_true, drawBefore_iff]
  omega

theorem drawBefore_self (a : α × Binary64) : drawBefore a a = false :=
  drawBefore_eq_false_iff.mpr (.inl (Int.le_refl _))

theorem not_drawBefore_trans (a b c : α × Binary64) (hab : drawBefore b a = false)
    (hbc : drawBefore c b = false) : drawBefore c a = false := by
  rw [drawBefore_eq_false_iff] at *
  omega

theorem keyBefore_largest (ha : a.2.IsPositive) (hb : b.2.IsPositive) :
    keyBefore (a.1, Binary64.largest * a.2) (b.1, Binary64.largest * b.2) = drawBefore a b := by
  rw [Bool.eq_iff_iff, drawBefore_iff, keyBefore, decide_eq_true_iff]
  exact Binary64.rank_largest_mul_lt_iff ha hb

/-- Before a draw above one come all that are not, and no other ones. -/
theorem before_aboveOne (ha : aboveOne a = true) :
    (drawBefore · a) = (!aboveOne ·) ∧ alike drawBefore a = aboveOne := by
  rw [aboveOne_iff] at ha
  constructor
  · funext b
    rw [Bool.eq_iff_iff, drawBefore_iff, Bool.not_eq_true', aboveOne_eq_false_iff]
    omega
  · funext b
    rw [Bool.eq_iff_iff, alike_iff, drawBefore_eq_false_iff, drawBefore_eq_false_iff, aboveOne_iff]
    omega

/-- Before another draw come the smaller ones. -/
theorem before_notAboveOne (ha : aboveOne a = false) :
    (drawBefore · a) = (decide <| ·.2.rank < a.2.rank) ∧
      alike drawBefore a = (decide <| ·.2.rank = a.2.rank) := by
  rw [aboveOne_eq_false_iff] at ha
  constructor
  · funext b
    rw [Bool.eq_iff_iff, drawBefore_iff, decide_eq_true_iff]
    omega
  · funext b
    rw [Bool.eq_iff_iff, alike_iff, drawBefore_eq_false_iff, drawBefore_eq_false_iff,
      decide_eq_true_iff]
    omega

/-! ## The order -/

section Order

variable [Generator γ] {g : γ} {xs : List Endpoint} {laid : List (Endpoint × Binary64)}

theorem exists_weightedShuffle_unmeasured (g : γ) (hunknown : ∀ e ∈ xs, e.rtt = .zero)
    (hdraws : ∀ i < xs.length, (magnitude g i).IsPositive) :
    ∃ laid : List (Endpoint × Binary64),
      (weightedShuffle (fun e => some e.rttWeight) g xs).1 = some (laid.map (·.1)) ∧
        IsStableSort drawBefore (drawn g xs) laid := by
  have hw : ∀ e ∈ xs, some e.rttWeight = some Binary64.largest := fun e he =>
    congrArg some (if_pos (Endpoint.isZero_rtt_iff.mpr (hunknown e he)))
  have hsorted : ((drawn g xs).mergeSort fun a b => !drawBefore b a).map
      (fun a => (a.1, Binary64.largest * a.2)) =
        (keyed (fun _ => Binary64.largest) g xs).mergeSort fun a b => !keyBefore b a := by
    rw [keyed_const]
    refine List.map_mergeSort fun a ha b hb => ?_
    rw [keyBefore_largest (isPositive_of_mem hdraws hb) (isPositive_of_mem hdraws ha)]
  refine ⟨(drawn g xs).mergeSort fun a b => !drawBefore b a, ?_,
    isStableSort_mergeSort (fun a b => ?_) not_drawBefore_trans _⟩
  · rw [weightedShuffle_eq hw, ← hsorted, List.map_map]
    rfl
  · rw [drawBefore_eq_false_iff, drawBefore_eq_false_iff]
    omega

/-- Draws above one leave their endpoints as they stood. -/
theorem filter_aboveOne (h : IsStableSort drawBefore (drawn g xs) laid) :
    laid.filter aboveOne = (drawn g xs).filter aboveOne := by
  have habove : aboveOne ((default, .infinite false) : Endpoint × Binary64) = true := by
    have hpos := unitsPerOne_pos
    have hlarge := overflowUnits_large
    rw [aboveOne_iff]
    show (unitsPerOne : Int) < overflowUnits
    omega
  rw [← (before_aboveOne habove).2]
  exact h.stable _

theorem ascending_iff (h : IsStableSort drawBefore (drawn g xs) laid)
    (hapart : (drawn g xs).Pairwise fun a b => a.2.rank ≠ b.2.rank) :
    laid.Pairwise (fun a b => a.2.rank < b.2.rank) ↔
      ((drawn g xs).filter aboveOne).Pairwise fun a b => a.2.rank < b.2.rank := by
  rw [← filter_aboveOne h]
  refine ⟨fun hall => hall.filter _, fun habove => ?_⟩
  have hdiffer : laid.Pairwise fun a b => a.2.rank ≠ b.2.rank :=
    ((h.perm drawBefore_self).pairwise_iff Ne.symm).mpr hapart
  rw [List.pairwise_iff_forall_sublist] at *
  intro a b hab
  have hsorted := drawBefore_eq_false_iff.mp (List.pairwise_iff_forall_sublist.mp h.ascending hab)
  cases ha : aboveOne a with
  | false =>
      rw [aboveOne_eq_false_iff] at ha
      have hne := hdiffer hab
      omega
  | true =>
      have hb : aboveOne b = true := by
        rw [aboveOne_iff] at *
        omega
      have hpair := hab.filter aboveOne
      rw [List.filter_cons_of_pos ha, List.filter_cons_of_pos hb] at hpair
      exact habove hpair

end Order

/-- **Without round-trip times the draws up to one decide.** However many endpoints there are, and
whatever positive draws they have, no two of them the same: an endpoint whose draw is at most one
has as many before it as have a smaller draw, and any other one those whose draw is at most one and
those others that stood before it. So all stand by ascending draw exactly if those with a draw above
one stood so already. -/
theorem unmeasured_by_draw_iff [Generator γ] (g : γ) (xs : List Endpoint)
    (hunknown : ∀ e ∈ xs, e.rtt = .zero) (hdraws : ∀ i < xs.length, (magnitude g i).IsPositive)
    (hapart : ∀ i < xs.length, ∀ j < i, magnitude g j ≠ magnitude g i) :
    ∃ laid : List (Endpoint × Binary64),
      (weightedShuffle (fun e => some e.rttWeight) g xs).1 = some (laid.map (·.1)) ∧
      laid.Perm (drawn g xs) ∧
      (∀ i a, (drawn g xs)[i]? = some a →
        laid[if aboveOne a
          then (drawn g xs).countP (!aboveOne ·) + ((drawn g xs).take i).countP aboveOne
          else (drawn g xs).countP (·.2.rank < a.2.rank)]? = some a) ∧
      (laid.Pairwise (fun a b => a.2.rank < b.2.rank) ↔
        ((drawn g xs).filter aboveOne).Pairwise fun a b => a.2.rank < b.2.rank) := by
  obtain ⟨laid, hshuffle, hstable⟩ := exists_weightedShuffle_unmeasured g hunknown hdraws
  have hdiffer := pairwise_drawn hdraws hapart
  refine ⟨laid, hshuffle, hstable.perm drawBefore_self, fun i a hi => ?_,
    ascending_iff hstable hdiffer⟩
  have hstands := hstable.getElem?_standing drawBefore_self not_drawBefore_trans hi
  cases ha : aboveOne a with
  | true =>
      obtain ⟨hbefore, hwith⟩ := before_aboveOne ha
      rw [if_pos rfl]
      rwa [hbefore, hwith] at hstands
  | false =>
      obtain ⟨hbefore, hwith⟩ := before_notAboveOne ha
      have hnone : ((drawn g xs).take i).countP (·.2.rank = a.2.rank) = 0 := by
        refine List.countP_eq_zero.mpr fun b hb => ?_
        have hlater : a ∈ (drawn g xs).drop i :=
          List.mem_of_getElem? (i := 0) (List.getElem?_drop.trans hi)
        rw [← List.take_append_drop i (drawn g xs)] at hdiffer
        simpa using (List.pairwise_append.mp hdiffer).2.2 b hb a hlater
      rw [if_neg Bool.false_ne_true]
      rwa [hbefore, hwith, hnone, Nat.add_zero] at hstands

/-- An endpoint of which only its name is known. -/
def unmeasured (id : String) : Endpoint := { id, addr := "10.0.0.1:80" }

/-- Three endpoints that draw three, a half and two: the second one comes first, and the others
stay in their order, though the last one has the smaller draw. -/
theorem unmeasured_by_draw_iff_of_late :
    let g : Draws := { magnitudes := [.finite false (3 * unitsPerOne),
      .finite false (Nat.pow 2 1073), .finite false (2 * unitsPerOne)] }
    let xs := [unmeasured "a", unmeasured "b", unmeasured "c"]
    (∀ e ∈ xs, e.rtt = .zero) ∧ (∀ i < xs.length, (magnitude g i).IsPositive) ∧
      (∀ i < xs.length, ∀ j < i, magnitude g j ≠ magnitude g i) ∧
      ∃ laid : List (Endpoint × Binary64),
        (weightedShuffle (fun e => some e.rttWeight) g xs).1 = some (laid.map (·.1)) ∧
        laid.map (·.1) = [unmeasured "b", unmeasured "a", unmeasured "c"] ∧
        ¬laid.Pairwise fun a b => a.2.rank < b.2.rank := by
  intro g xs
  have hunknown : ∀ e ∈ xs, e.rtt = .zero := by decide
  have hdraws : ∀ i < xs.length, (magnitude g i).IsPositive := by
    intro i hi
    match i, hi with
    | 0, _ => exact ⟨_, rfl, by decide +kernel, by decide +kernel⟩
    | 1, _ => exact ⟨_, rfl, by decide +kernel, by decide +kernel⟩
    | 2, _ => exact ⟨_, rfl, by decide +kernel, by decide +kernel⟩
  have hapart : ∀ i < xs.length, ∀ j < i, magnitude g j ≠ magnitude g i := by decide +kernel
  obtain ⟨laid, hshuffle, hperm, hplaces, hascending⟩ :=
    unmeasured_by_draw_iff g xs hunknown hdraws hapart
  refine ⟨hunknown, hdraws, hapart, laid, hshuffle, ?_, ?_⟩
  · have hplace (i k : Nat) (e : Endpoint) (x : Binary64)
        (hi : (drawn g xs)[i]? = some (e, x))
        (hk : (if aboveOne (e, x)
          then (drawn g xs).countP (!aboveOne ·) + ((drawn g xs).take i).countP aboveOne
          else (drawn g xs).countP (·.2.rank < x.rank)) = k) : (laid.map (·.1))[k]? = some e := by
      rw [List.getElem?_map, ← hk, hplaces i _ hi]
      rfl
    have hlength : laid.length = 3 := hperm.length_eq
    refine List.ext_getElem? fun k => ?_
    match k with
    | 0 => exact hplace 1 0 _ _ rfl (by decide +kernel)
    | 1 => exact hplace 0 1 _ _ rfl (by decide +kernel)
    | 2 => exact hplace 2 2 _ _ rfl (by decide +kernel)
    | k + 3 => simp [hlength]
  · rw [hascending]
    decide +kernel

/-- Two endpoints that draw three and two stay in their order. So it is not true that draws between
`2^-60` and `2^6`, no two of them the same, always decide. -/
theorem not_every_draw_decides :
    let g : Draws := { magnitudes := [.finite false (3 * unitsPerOne),
      .finite false (2 * unitsPerOne)] }
    let xs := [unmeasured "a", unmeasured "b"]
    (weightedShuffle (fun e => some e.rttWeight) g xs).1 = some xs ∧
      (magnitude g 1).rank < (magnitude g 0).rank ∧
      ¬∀ (g : Draws) (xs : List Endpoint), (∀ e ∈ xs, e.rtt = .zero) →
        (∀ i < xs.length, IsDraw (magnitude g i) ∧ (magnitude g i).IsPositive) →
        (∀ i < xs.length, ∀ j < i, magnitude g j ≠ magnitude g i) →
        ∃ laid : List (Endpoint × Binary64),
          (weightedShuffle (fun e => some e.rttWeight) g xs).1 = some (laid.map (·.1)) ∧
          laid.Perm (drawn g xs) ∧ laid.Pairwise fun a b => a.2.rank < b.2.rank := by
  intro g xs
  have hunknown : ∀ e ∈ xs, e.rtt = .zero := by decide
  have hdraws : ∀ i < xs.length, IsDraw (magnitude g i) ∧ (magnitude g i).IsPositive := by
    intro i hi
    match i, hi with
    | 0, _ => exact ⟨⟨_, rfl, by decide +kernel, by decide +kernel⟩, _, rfl, by decide +kernel,
        by decide +kernel⟩
    | 1, _ => exact ⟨⟨_, rfl, by decide +kernel, by decide +kernel⟩, _, rfl, by decide +kernel,
        by decide +kernel⟩
  have hshuffle : (weightedShuffle (fun e => some e.rttWeight) g xs).1 = some xs := by
    obtain ⟨laid, hlaid, hstable⟩ :=
      exists_weightedShuffle_unmeasured g hunknown fun i hi => (hdraws i hi).2
    have hstays : IsStableSort drawBefore (drawn g xs) (drawn g xs) :=
      ⟨by decide +kernel, fun _ => rfl⟩
    rw [hlaid, hstable.unique drawBefore_self hstays]
    rfl
  have hless : (magnitude g 1).rank < (magnitude g 0).rank := by decide +kernel
  refine ⟨hshuffle, hless, fun hall => ?_⟩
  obtain ⟨laid, hlaid, hperm, hascending⟩ := hall g xs hunknown hdraws (by decide +kernel)
  have hnames : laid.map (·.1) = xs := Option.some.inj (hlaid.symm.trans hshuffle)
  obtain ⟨p, q, rfl⟩ : ∃ p q, laid = [p, q] := by
    match laid, hperm.length_eq with
    | [p, q], _ => exact ⟨p, q, rfl⟩
  have hdrawn (c : Endpoint × Binary64) (hc : c ∈ [p, q]) :
      c = (unmeasured "a", magnitude g 0) ∨ c = (unmeasured "b", magnitude g 1) := by
    have hmem : c ∈ drawn g xs := hperm.mem_iff.mp hc
    simpa using (show c ∈ [_, _] from hmem)
  rcases hdrawn p (.head _) with rfl | rfl
  · rcases hdrawn q (.tail _ (.head _)) with rfl | rfl
    · exact absurd hnames (by decide)
    · have hmore := (List.pairwise_cons.mp hascending).1 _ (.head _)
      exact absurd hless (Int.not_lt.mpr (Int.le_of_lt hmore))
  · exact absurd (List.cons.inj hnames).1 (by decide)

end Tenure
