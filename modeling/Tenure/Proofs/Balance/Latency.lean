import Tenure.Proofs.Balance.WeightedOrder
import Tenure.Proofs.Numeric.Arithmetic

/-!
# Unknown round-trip times come last

The weight of an endpoint is its round-trip time in nanoseconds, of which there are fewer than
`2^94`, and the largest finite double where the time is not known, which is more than `2^161`. A
draw between `2^-60` and `2^6` does not bridge that: the key of a known time is at most `2^100` and
that of an unknown one at least `2^101`, if it is finite at all. Rounding passes none of these
powers of two.

* `Endpoint.rttUnits_mono`, `Endpoint.rttUnits_lt_unknown` — the weights grow with the time, and
  stay below that of an unknown one;
* `Endpoint.rank_known_le`, `Endpoint.le_rank_unknown` — the keys;
* `unknown_rtt_last` — the order.
-/

namespace Tenure

open Numeric

variable {α γ : Type}

/-- A draw of at least `2^-60` and at most `2^6`. -/
def IsDraw (x : Binary64) : Prop :=
  ∃ units, x = .finite false units ∧ unitsPerOne ≤ 2 ^ 60 * units ∧ units ≤ 2 ^ 6 * unitsPerOne

namespace Endpoint

variable {e e' : Endpoint} {draw : Binary64}

/-! ## Weights -/

/-- A known round-trip time as a weight, in units. -/
def rttUnits (e : Endpoint) : Nat := roundUnits (e.rtt.nanos * unitsPerOne) 1

theorem rttUnits_mono (h : e.rtt.nanos ≤ e'.rtt.nanos) : e.rttUnits ≤ e'.rttUnits :=
  roundUnits_mono Nat.one_pos (Nat.mul_le_mul_right _ h)

theorem rttUnits_le (e : Endpoint) : e.rttUnits ≤ 2 ^ 94 * unitsPerOne := by
  have hnanos : e.rtt.nanos ≤ 2 ^ 94 := Nat.le_trans (Nat.le_of_lt e.rtt.nanos_lt) (by decide)
  refine roundUnits_le_power Nat.one_pos ?_
  rw [Nat.mul_one]
  exact Nat.mul_le_mul_right _ hnanos

theorem isZero_rtt_iff : e.rtt.isZero = true ↔ e.rtt = .zero :=
  Duration.isZero_iff.trans Duration.nanos_eq_zero_iff

theorem rttWeight_known (h : e.rtt ≠ .zero) : e.rttWeight = .finite false e.rttUnits := by
  have hfits : e.rttUnits < overflowUnits := by
    have hmost := e.rttUnits_le
    have hpos := unitsPerOne_pos
    have hoverflow := overflowUnits_large
    omega
  have hweight : e.rttWeight = .ofNat e.rtt.nanos := if_neg (mt isZero_rtt_iff.mp h)
  rw [hweight, Binary64.ofNat, Binary64.ofRatio]
  exact Binary64.ofUnitsRatio_of_lt hfits

theorem known_of_le (h : e.rtt ≠ .zero) (hle : e.rtt.nanos ≤ e'.rtt.nanos) : e'.rtt ≠ .zero := by
  rw [ne_eq, ← Duration.nanos_eq_zero_iff] at h ⊢
  omega

theorem exists_rttWeight_unknown (h : e.rtt = .zero) :
    ∃ units, e.rttWeight = .finite false units ∧ 2 ^ 161 * unitsPerOne ≤ units :=
  ⟨_, if_pos (isZero_rtt_iff.mpr h), by decide +kernel⟩

theorem rttUnits_lt_unknown (e : Endpoint) (h : e'.rtt = .zero) :
    ∃ units, e'.rttWeight = .finite false units ∧ e.rttUnits < units := by
  obtain ⟨units, hweight, hlarge⟩ := exists_rttWeight_unknown h
  have hmost := e.rttUnits_le
  have hpos := unitsPerOne_pos
  exact ⟨units, hweight, by omega⟩

/-! ## Keys -/

theorem rank_known_le (h : e.rtt ≠ .zero) (hdraw : IsDraw draw) :
    (e.rttWeight * draw).rank ≤ (2 ^ 100 * unitsPerOne : Nat) := by
  obtain ⟨units, rfl, -, hmost⟩ := hdraw
  have hproduct : e.rttUnits * units ≤ 2 ^ 100 * unitsPerOne * unitsPerOne := by
    calc e.rttUnits * units
        ≤ 2 ^ 94 * unitsPerOne * (2 ^ 6 * unitsPerOne) := Nat.mul_le_mul e.rttUnits_le hmost
      _ = 2 ^ 100 * unitsPerOne * unitsPerOne := by ring
  rw [rttWeight_known h, Binary64.mul_finite, Binary64.rank_ofUnitsRatio]
  exact Int.ofNat_le.mpr <|
    Nat.le_trans (Nat.min_le_left ..) (roundUnits_le_power unitsPerOne_pos hproduct)

theorem le_rank_unknown (h : e.rtt = .zero) (hdraw : IsDraw draw) :
    (2 ^ 101 * unitsPerOne : Nat) ≤ (e.rttWeight * draw).rank := by
  obtain ⟨units, rfl, hleast, -⟩ := hdraw
  obtain ⟨weight, hweight, hlarge⟩ := exists_rttWeight_unknown h
  have hproduct : 2 ^ 101 * unitsPerOne * unitsPerOne ≤ weight * units := by
    refine Nat.le_of_mul_le_mul_left (c := 2 ^ 60) ?_ (by decide)
    calc 2 ^ 60 * (2 ^ 101 * unitsPerOne * unitsPerOne)
        = 2 ^ 161 * unitsPerOne * unitsPerOne := by ring
      _ ≤ weight * (2 ^ 60 * units) := Nat.mul_le_mul hlarge hleast
      _ = 2 ^ 60 * (weight * units) := Nat.mul_left_comm ..
  rw [hweight, Binary64.mul_finite, Binary64.rank_ofUnitsRatio]
  refine Int.ofNat_le.mpr (Nat.le_min.mpr ⟨power_le_roundUnits unitsPerOne_pos hproduct, ?_⟩)
  decide +kernel

theorem rank_known_lt_unknown {draw' : Binary64} (hknown : e.rtt ≠ .zero) (hdraw : IsDraw draw)
    (hunknown : e'.rtt = .zero) (hdraw' : IsDraw draw') :
    (e.rttWeight * draw).rank < (e'.rttWeight * draw').rank := by
  have hmost := rank_known_le hknown hdraw
  have hleast := le_rank_unknown hunknown hdraw'
  have hpos := unitsPerOne_pos
  omega

end Endpoint

/-! ## The order -/

/-- Where no other element stands before one of a kind, these have the first places. -/
theorem lt_of_pairwise {kind : α → Prop} {xs : List α}
    (h : xs.Pairwise fun x y => kind y → kind x) {i j : Nat} {x y : α} (hi : xs[i]? = some x)
    (hj : xs[j]? = some y) (hx : kind x) (hy : ¬kind y) : i < j := by
  obtain ⟨hlength, rfl⟩ := List.getElem?_eq_some_iff.mp hi
  obtain ⟨hlength', rfl⟩ := List.getElem?_eq_some_iff.mp hj
  refine Nat.lt_of_not_le fun hji => ?_
  rcases Nat.eq_or_lt_of_le hji with rfl | hji
  · exact hy hx
  · exact hy (List.pairwise_iff_getElem.mp h j i hlength' hlength hji hx)

/-- **Endpoints whose round-trip time is not known come last.** Whatever is drawn between `2^-60`
and `2^6`, a shuffle by round-trip time lays out all endpoints, and every one with a known time
before every one without. A known time that is no longer than another weighs no more, and none
weighs as much as an unknown one. -/
theorem unknown_rtt_last [Generator γ] (g : γ) (xs : List Endpoint)
    (hdraws : ∀ i < xs.length, IsDraw (magnitude g i)) :
    (∃ ys, (weightedShuffle (fun e => some e.rttWeight) g xs).1 = some ys ∧ ys.Perm xs ∧
      ∀ (i j : Nat) (a b : Endpoint), ys[i]? = some a → ys[j]? = some b →
        a.rtt ≠ .zero → b.rtt = .zero → i < j) ∧
    ∀ a : Endpoint, a.rtt ≠ .zero → ∃ u, a.rttWeight = .finite false u ∧
      (∀ b : Endpoint, a.rtt.nanos ≤ b.rtt.nanos → ∃ v, b.rttWeight = .finite false v ∧ u ≤ v) ∧
      (∀ b : Endpoint, b.rtt = .zero → ∃ v, b.rttWeight = .finite false v ∧ u < v) := by
  constructor
  · have hbelow : ∀ i j x y, xs[i]? = some x → xs[j]? = some y → x.rtt ≠ .zero → ¬y.rtt ≠ .zero →
        (x.rttWeight * magnitude g i).rank < (y.rttWeight * magnitude g j).rank := by
      intro i j x y hi hj hx hy
      have hdraw := hdraws i (List.getElem?_eq_some_iff.mp hi).1
      have hdraw' := hdraws j (List.getElem?_eq_some_iff.mp hj).1
      exact Endpoint.rank_known_lt_unknown hx hdraw (Decidable.not_not.mp hy) hdraw'
    obtain ⟨ys, hys, hperm, hpairs⟩ :
        ∃ ys, (weightedShuffle (fun e => some e.rttWeight) g xs).1 = some ys ∧ ys.Perm xs ∧
          ys.Pairwise fun x y => y.rtt ≠ .zero → x.rtt ≠ .zero :=
      exists_weightedShuffle_apart (fun _ _ => rfl) g hbelow
    refine ⟨ys, hys, hperm, fun i j a b hi hj ha hb => ?_⟩
    exact lt_of_pairwise hpairs hi hj ha (not_not_intro hb)
  · intro a ha
    refine ⟨a.rttUnits, Endpoint.rttWeight_known ha, fun b hab => ?_, fun b hb => ?_⟩
    · exact ⟨b.rttUnits, Endpoint.rttWeight_known (Endpoint.known_of_le ha hab),
        Endpoint.rttUnits_mono hab⟩
    · exact Endpoint.rttUnits_lt_unknown a hb

/-- An endpoint at an unknown distance that draws the least magnitude, and one as far away as can
be known that draws the largest. -/
theorem unknown_rtt_last_of_farthest :
    let g : Draws :=
      { magnitudes := [.finite false (Nat.pow 2 1014), .finite false (64 * unitsPerOne)] }
    let unknown : Endpoint := { id := "unknown", addr := "10.0.0.1:80" }
    let farthest : Endpoint := { id := "farthest", addr := "10.0.0.2:80", rtt := .longest }
    (∀ i < [unknown, farthest].length, IsDraw (magnitude g i)) ∧ farthest.rtt ≠ .zero ∧
      (∃ ys, (weightedShuffle (fun e => some e.rttWeight) g [unknown, farthest]).1 = some ys ∧
        ys[1]? = some unknown) ∧
      ∃ u v, farthest.rttWeight = .finite false u ∧ unknown.rttWeight = .finite false v ∧ u < v := by
  intro g unknown farthest
  have hdraws : ∀ i < [unknown, farthest].length, IsDraw (magnitude g i) := by
    intro i hi
    match i, hi with
    | 0, _ => exact ⟨Nat.pow 2 1014, rfl, by decide +kernel, by decide +kernel⟩
    | 1, _ => exact ⟨64 * unitsPerOne, rfl, by decide +kernel, by decide +kernel⟩
  have hfarthest : farthest.rtt ≠ .zero := by decide
  obtain ⟨⟨ys, hys, hperm, horder⟩, hweights⟩ := unknown_rtt_last g [unknown, farthest] hdraws
  refine ⟨hdraws, hfarthest, ⟨ys, hys, ?_⟩, ?_⟩
  · obtain ⟨i, hi⟩ := List.mem_iff_getElem?.mp (hperm.mem_iff.mpr (.tail _ (.head _)))
    obtain ⟨j, hj⟩ := List.mem_iff_getElem?.mp (hperm.mem_iff.mpr (.head _))
    have hij : i < j := horder i j farthest unknown hi hj hfarthest rfl
    have hlength : j < ys.length := (List.getElem?_eq_some_iff.mp hj).1
    have htwo : ys.length = 2 := hperm.length_eq
    obtain rfl : j = 1 := by omega
    exact hj
  · obtain ⟨u, hu, -, hless⟩ := hweights farthest hfarthest
    obtain ⟨v, hv, huv⟩ := hless unknown rfl
    exact ⟨u, v, hu, hv, huv⟩

end Tenure
