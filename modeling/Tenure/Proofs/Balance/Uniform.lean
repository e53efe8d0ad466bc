import Mathlib.Data.List.Permutation
import Mathlib.Data.Nat.Factorial.BigOperators
import Mathlib.Probability.Distributions.Uniform
import Mathlib.Probability.Independence.Basic
import Tenure.Proofs.Balance.Reordering

/-!
# Shuffles are uniform

The exchanges of a shuffle are determined by the places drawn for them: two for the second
place of the list, three for the third one, and so on. Elements that are all different can be
put into as many orders as there are such choices, and each choice leaves another order.

* `shuffle_eq_choices` — nothing but the places drawn counts;
* `shuffleFrom_injective` — the order that is left tells which places were drawn;
* `card_choices`, `card_orderings` — there are as many choices as orders;
* `shuffle_uniform` — so each order has one choice, and independent uniform draws make all
  orders equally likely.
-/

universe u

namespace Tenure

open MeasureTheory ProbabilityTheory
open scoped Nat ENNReal

variable {α γ : Type}

/-! ## Choices of places -/

/-- A place for each exchange of a list of length `n`: at index `i` one of the places `0` to
`i + 1`, which the place `i + 1` is exchanged with. -/
abbrev Choices (n : Nat) : Type := (i : Fin (n - 1)) → Fin (i + 2)

/-- A choice gives the places that it is made of, however often it is asked. -/
instance (n : Nat) : Generator (Choices n) where
  place c last :=
    (match last with
      | 0 => 0
      | i + 1 => if h : i < n - 1 then c ⟨i, h⟩ else 0, c)
  exponential c := (.zero, c)

/-- The generator after the first `i` exchanges of a shuffle. -/
def afterPlaces [Generator γ] (g : γ) : Nat → γ
  | 0 => g
  | i + 1 => (Generator.place (afterPlaces g i) (i + 1)).2

/-- The places that a generator draws for the exchanges of a list of length `n`. -/
def choices [Generator γ] (g : γ) (n : Nat) : Choices n := fun i =>
  (Generator.place (afterPlaces g i) (i + 1)).1

theorem place_choices {n i : Nat} (c : Choices n) (h : i < n - 1) :
    Generator.place c (i + 1) = (c ⟨i, h⟩, c) :=
  congrArg (·, c) (dif_pos h)

theorem choices_self {n : Nat} (c : Choices n) : choices c n = c := by
  have hafter : ∀ i, afterPlaces c i = c := by
    intro i
    induction i with
    | zero => rfl
    | succ i ih => exact ih
  funext i
  unfold choices
  rw [hafter, place_choices c i.isLt]

/-! ## One exchange, and all of them -/

theorem shuffleFrom_of_lt [Generator γ] {n i : Nat} (h : i < n) (g : γ) (xs : Vector α n) :
    shuffleFrom i g xs =
      shuffleFrom (i + 1) (Generator.place g i).2
        (xs.swap i (Generator.place g i).1 h
          (Nat.lt_of_le_of_lt (Generator.place g i).1.is_le h)) := by
  rw [shuffleFrom, dif_pos h]

theorem shuffleFrom_of_le [Generator γ] {n i : Nat} (h : n ≤ i) (g : γ) (xs : Vector α n) :
    shuffleFrom i g xs = (xs, g) := by
  rw [shuffleFrom, dif_neg (Nat.not_lt.mpr h)]

theorem Choices.place_lt {n i : Nat} (c : Choices n) (h : i < n - 1) : (c ⟨i, h⟩).val < n := by
  have hle : (c ⟨i, h⟩).val ≤ i + 1 := (c ⟨i, h⟩).is_le
  omega

/-- A choice, one exchange after the other. -/
theorem shuffleFrom_choices {n i : Nat} (h : i < n - 1) (c : Choices n) (xs : Vector α n) :
    shuffleFrom (i + 1) c xs =
      shuffleFrom (i + 2) c (xs.swap (i + 1) (c ⟨i, h⟩) (by omega) (c.place_lt h)) := by
  rw [shuffleFrom_of_lt (by omega)]
  simp only [place_choices c h]

theorem shuffleFrom_eq_choices [Generator γ] {n : Nat} (g : γ) (i : Nat) (xs : Vector α n) :
    (shuffleFrom (i + 1) (afterPlaces g i) xs).1 = (shuffleFrom (i + 1) (choices g n) xs).1 := by
  by_cases h : i < n - 1
  · have hbound : i + 1 < n := by omega
    rw [shuffleFrom_choices h, shuffleFrom_of_lt hbound]
    exact shuffleFrom_eq_choices g (i + 1) _
  · have hbound : n ≤ i + 1 := by omega
    rw [shuffleFrom_of_le hbound, shuffleFrom_of_le hbound]
termination_by n - i

/-- Of a generator, a shuffle sees the places that it draws and no more. -/
theorem shuffle_eq_choices [Generator γ] (g : γ) (xs : List α) :
    (shuffle g xs).1 = (shuffle (choices g xs.length) xs).1 :=
  congrArg Vector.toList (shuffleFrom_eq_choices g 0 xs.toArray.toVector)

/-! ## The order left tells the places drawn -/

/-- An exchange that ends at the same elements began at the same ones, with the same place:
the element that stood at `i` is found at the place drawn. -/
theorem swap_injective {n i j k : Nat} {xs ys : Vector α n} (hi : i < n) (hj : j < n) (hk : k < n)
    (distinct : xs.toList.Nodup) (heq : xs.swap i j hi hj = ys.swap i k hi hk)
    (hsame : xs[i] = ys[i]) : xs = ys ∧ j = k := by
  have hjk : j = k := by
    have hdistinct : (xs.swap i j hi hj).toList.Nodup :=
      (Vector.swap_perm hi hj).toList.nodup_iff.mpr distinct
    have hlength : (xs.swap i j hi hj).toList.length = n := Vector.length_toList
    have hj' : j < (xs.swap i j hi hj).toList.length := by rwa [hlength]
    have hk' : k < (xs.swap i j hi hj).toList.length := by rwa [hlength]
    have hcell : (xs.swap i j hi hj)[j] = (xs.swap i j hi hj)[k] := by
      calc (xs.swap i j hi hj)[j] = xs[i] := Vector.getElem_swap_right hi hj
        _ = (ys.swap i k hi hk)[k] := by rw [hsame, Vector.getElem_swap_right]
        _ = (xs.swap i j hi hj)[k] := by simp only [heq]
    rw [← Vector.getElem_toList hj', ← Vector.getElem_toList hk'] at hcell
    exact hdistinct.getElem_inj_iff.mp hcell
  subst hjk
  have hback := congrArg (·.swap i j hi hj) heq
  exact ⟨by simpa only [Vector.swap_swap] using hback, rfl⟩

/-- Exchanges from the place `i + 1` on never move what stands behind it, so they can be
undone from the last one to the first. -/
theorem shuffleFrom_injective {n : Nat} (i : Nat) {c d : Choices n} {xs ys : Vector α n}
    (distinct : xs.toList.Nodup)
    (hbehind : ∀ p, (hp : p < n) → i < p → xs[p] = ys[p])
    (hleft : (shuffleFrom (i + 1) c xs).1 = (shuffleFrom (i + 1) d ys).1) :
    xs = ys ∧ ∀ p : Fin (n - 1), i ≤ p → c p = d p := by
  by_cases h : i < n - 1
  · have hi : i + 1 < n := by omega
    have hcle : (c ⟨i, h⟩).val ≤ i + 1 := (c ⟨i, h⟩).is_le
    have hdle : (d ⟨i, h⟩).val ≤ i + 1 := (d ⟨i, h⟩).is_le
    have hkept : ∀ p, (hp : p < n) → i + 1 < p →
        (xs.swap (i + 1) (c ⟨i, h⟩) hi (c.place_lt h))[p] =
          (ys.swap (i + 1) (d ⟨i, h⟩) hi (d.place_lt h))[p] := by
      intro p hp hip
      rw [Vector.getElem_swap_of_ne (by omega) (by omega),
        Vector.getElem_swap_of_ne (by omega) (by omega)]
      exact hbehind p hp (by omega)
    rw [shuffleFrom_choices h, shuffleFrom_choices h] at hleft
    obtain ⟨hswapped, hlater⟩ := shuffleFrom_injective (i + 1)
      ((Vector.swap_perm hi (c.place_lt h)).toList.nodup_iff.mpr distinct) hkept hleft
    obtain ⟨hsame, hplace⟩ := swap_injective hi (c.place_lt h) (d.place_lt h) distinct hswapped
      (hbehind _ hi (by omega))
    refine ⟨hsame, fun p hp => ?_⟩
    rcases Nat.eq_or_lt_of_le hp with rfl | hlt
    · exact Fin.ext hplace
    · exact hlater p hlt
  · have hbound : n ≤ i + 1 := by omega
    rw [shuffleFrom_of_le hbound, shuffleFrom_of_le hbound] at hleft
    exact ⟨hleft, fun p hp => absurd p.isLt (by omega)⟩
termination_by n - i

theorem shuffle_injective {xs : List α} (distinct : xs.Nodup) :
    Function.Injective fun c : Choices xs.length => (shuffle c xs).1 := by
  intro c d hleft
  have hstart : xs.toArray.toVector.toList.Nodup := distinct
  have hvectors := Vector.toList_inj.mp hleft
  funext p
  exact (shuffleFrom_injective 0 hstart (fun _ _ _ => rfl) hvectors).2 p (Nat.zero_le _)

/-! ## Counting -/

theorem card_choices (n : Nat) : Nat.card (Choices n) = n ! := by
  rw [Nat.card_pi]
  simp only [Nat.card_eq_fintype_card, Fintype.card_fin]
  rw [Fin.prod_univ_eq_prod_range (fun i => i + 2) (n - 1),
    ← Finset.prod_range_add_one_eq_factorial]
  cases n with
  | zero => rfl
  | succ n => rw [Finset.prod_range_succ', Nat.add_sub_cancel, Nat.mul_one]

theorem card_orderings {xs : List α} (distinct : xs.Nodup) :
    Nat.card {ys : List α // ys.Perm xs} = xs.length ! := by
  classical
  have hlisted : ∀ ys : List α, ys ∈ xs.permutations.toFinset ↔ ys.Perm xs := by
    intro ys
    rw [List.mem_toFinset, List.mem_permutations]
  rw [← Nat.card_congr (Equiv.subtypeEquivRight hlisted), Nat.card_eq_fintype_card,
    Fintype.card_coe, List.toFinset_card_of_nodup (List.nodup_permutations xs distinct),
    List.length_permutations]

/-- **Each order is left by one choice of places.** -/
theorem shuffle_bijective {xs : List α} (distinct : xs.Nodup) :
    Function.Bijective fun c : Choices xs.length =>
      (⟨(shuffle c xs).1, shuffle_perm c xs⟩ : {ys : List α // ys.Perm xs}) := by
  have hcount := card_orderings distinct
  have hfinite : Finite {ys : List α // ys.Perm xs} :=
    Nat.finite_of_card_ne_zero (hcount ▸ Nat.factorial_ne_zero _)
  refine Function.Injective.bijective_of_nat_card_le (fun c d hleft => ?_) ?_
  · exact shuffle_injective distinct (congrArg Subtype.val hleft)
  · rw [hcount, card_choices]

/-! ## Uniform draws -/

/-- Generators that draw each place of a shuffle uniformly among those it may be, and
independently of the other ones. -/
structure DrawsUniformly [Generator γ] {Ω : Type u} [MeasurableSpace Ω] (μ : Measure Ω)
    (g : Ω → γ) (n : Nat) : Prop where
  independent : iIndepFun (fun i ω => choices (g ω) n i) μ
  uniform : ∀ (i : Fin (n - 1)) (j : Fin (i + 2)),
    μ {ω | choices (g ω) n i = j} = ((i + 2 : Nat) : ℝ≥0∞)⁻¹

/-- All choices are equally likely then. -/
theorem DrawsUniformly.choices_eq [Generator γ] {Ω : Type u} [MeasurableSpace Ω] {μ : Measure Ω}
    {g : Ω → γ} {n : Nat} (h : DrawsUniformly μ g n) (c : Choices n) :
    μ {ω | choices (g ω) n = c} = (n ! : ℝ≥0∞)⁻¹ := by
  have hevent : {ω | choices (g ω) n = c} = ⋂ i, {ω | choices (g ω) n i = c i} := by
    ext ω
    simp only [Set.mem_ofPred_eq, Set.mem_iInter, funext_iff]
  have hdrawn : ∀ i, MeasurableSet[MeasurableSpace.comap (fun ω => choices (g ω) n i) inferInstance]
      {ω | choices (g ω) n i = c i} := fun i => ⟨{c i}, .of_discrete, rfl⟩
  have hcount : n ! = ∏ i : Fin (n - 1), (i + 2 : Nat) := by
    rw [← card_choices, Nat.card_pi]
    simp only [Nat.card_eq_fintype_card, Fintype.card_fin]
  calc μ {ω | choices (g ω) n = c}
      = ∏ i, μ {ω | choices (g ω) n i = c i} := by rw [hevent, h.independent.meas_iInter hdrawn]
    _ = ∏ i : Fin (n - 1), ((i + 2 : Nat) : ℝ≥0∞)⁻¹ := by simp only [h.uniform]
    _ = (n ! : ℝ≥0∞)⁻¹ := by
        rw [hcount, Nat.cast_prod]
        refine (ENNReal.prod_inv_distrib ?_).symm
        exact fun _ _ _ _ _ => .inr (ENNReal.natCast_ne_top _)

/-- The measure under which all choices are equally likely. -/
noncomputable def uniformChoices (n : Nat) : Measure (Choices n) :=
  .pi fun i => (PMF.uniformOfFintype (Fin (i + 2))).toMeasure

theorem drawsUniformly_uniformChoices (n : Nat) : DrawsUniformly (uniformChoices n) id n := by
  unfold uniformChoices
  refine ⟨?_, fun i j => ?_⟩
  · simp only [id, choices_self]
    exact iIndepFun_pi (X := fun _ => id) fun _ => aemeasurable_id
  · simp only [id, choices_self]
    have hplace := (measurePreserving_eval
      (fun i : Fin (n - 1) => (PMF.uniformOfFintype (Fin (i + 2))).toMeasure) i).measure_preimage
        (measurableSet_singleton j).nullMeasurableSet
    refine hplace.trans ?_
    rw [PMF.toMeasure_uniformOfFintype_apply _ (measurableSet_singleton j), Fintype.card_fin]
    simp

/-- **Shuffles are uniform.** Of a generator, a shuffle sees the places drawn for its exchanges:
one of two, one of three, and so on. For a list of different elements, choices of these places
stand for the orders of the list one for one. So wherever the places are drawn uniformly and
independently, every order is left with the same probability. -/
theorem shuffle_uniform (xs : List α) (distinct : xs.Nodup) :
    (∀ c : Choices xs.length, choices c xs.length = c) ∧
    (Function.Bijective fun c : Choices xs.length =>
      (⟨(shuffle c xs).1, shuffle_perm c xs⟩ : {ys : List α // ys.Perm xs})) ∧
    Nat.card {ys : List α // ys.Perm xs} = xs.length ! ∧
    ∀ (γ : Type) [Generator γ],
      (∀ g : γ, (shuffle g xs).1 = (shuffle (choices g xs.length) xs).1) ∧
      ∀ (Ω : Type u) [MeasurableSpace Ω] (μ : Measure Ω) (g : Ω → γ),
        DrawsUniformly μ g xs.length → ∀ ys, ys.Perm xs →
          μ {ω | (shuffle (g ω) xs).1 = ys} = (xs.length ! : ℝ≥0∞)⁻¹ := by
  refine ⟨choices_self, shuffle_bijective distinct, card_orderings distinct, fun γ _ => ?_⟩
  refine ⟨fun g => shuffle_eq_choices g xs, fun Ω _ μ g hdraws ys hys => ?_⟩
  obtain ⟨c, hc⟩ := (shuffle_bijective distinct).surjective ⟨ys, hys⟩
  have hleft : (shuffle c xs).1 = ys := congrArg Subtype.val hc
  have hevent : {ω | (shuffle (g ω) xs).1 = ys} = {ω | choices (g ω) xs.length = c} := by
    ext ω
    rw [Set.mem_ofPred_eq, Set.mem_ofPred_eq, shuffle_eq_choices, ← hleft]
    exact (shuffle_injective distinct).eq_iff
  rw [hevent, hdraws.choices_eq c]

/-- Three endpoints. -/
def trio : List Endpoint :=
  [{ id := "a", addr := "10.0.0.1:80" }, { id := "b", addr := "10.0.0.2:80" },
    { id := "c", addr := "10.0.0.3:80" }]

/-- Three endpoints are left in each of their six orders with probability one sixth. -/
theorem shuffle_uniform_of_trio :
    trio.Nodup ∧ DrawsUniformly (uniformChoices 3) id 3 ∧
      ∀ ys, ys.Perm trio → uniformChoices 3 {c | (shuffle c trio).1 = ys} = (6 : ℝ≥0∞)⁻¹ := by
  have hdistinct : trio.Nodup := by decide
  have hdraws := drawsUniformly_uniformChoices 3
  obtain ⟨-, -, -, huniform⟩ := shuffle_uniform trio hdistinct
  refine ⟨hdistinct, hdraws, fun ys hys => ?_⟩
  exact ((huniform (Choices 3)).2 _ _ id hdraws ys hys).trans rfl

end Tenure
