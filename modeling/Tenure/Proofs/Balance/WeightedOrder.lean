import Tenure.Proofs.Balance.Layout
import Tenure.Proofs.Balance.StableOrder
import Tenure.Proofs.Numeric.TotalOrder

/-!
# Weighted shuffles sort by key

Every element draws one magnitude, in the order of the list, and its key is its weight times
this draw. A weighted shuffle is the stable sort by these keys under the total order of
doubles, which compares their bits as numbers with a sign: the places are sorted by the keys,
and the list is laid out in that order.

* `drawKeys_eq` — which draw belongs to which element;
* `filterMap_ascending` — sorting the places sorts the elements with their keys;
* `weightedShuffle_eq` — so the elements are laid out sorted by key;
* `exists_weightedShuffle_apart` — and those whose keys are below all others stand first;
* `weightedShuffle_sorts` — the result, and where in it each element stands.
-/

namespace Tenure

open Numeric

variable {α γ : Type}

/-! ## Draws and keys -/

/-- The generator after the first `i` magnitudes were drawn. -/
def afterMagnitudes [Generator γ] (g : γ) : Nat → γ
  | 0 => g
  | i + 1 => (Generator.exponential (afterMagnitudes g i)).2

/-- The magnitude that is drawn after `i` others. -/
def magnitude [Generator γ] (g : γ) (i : Nat) : Binary64 :=
  (Generator.exponential (afterMagnitudes g i)).1

/-- The elements with their keys, weight times draw. -/
def keyed [Generator γ] (weight : α → Binary64) (g : γ) (xs : List α) : List (α × Binary64) :=
  xs.mapIdx fun i x => (x, weight x * magnitude g i)

theorem afterMagnitudes_succ [Generator γ] (g : γ) (i : Nat) :
    afterMagnitudes g (i + 1) = afterMagnitudes (Generator.exponential g).2 i := by
  induction i with
  | zero => rfl
  | succ i ih => exact congrArg (fun g => (Generator.exponential g).2) ih

theorem keyed_cons [Generator γ] (weight : α → Binary64) (g : γ) (x : α) (xs : List α) :
    keyed weight g (x :: xs) =
      (x, weight x * (Generator.exponential g).1) ::
        keyed weight (Generator.exponential g).2 xs := by
  unfold keyed magnitude
  rw [List.mapIdx_cons]
  simp only [afterMagnitudes_succ]
  rfl

theorem map_fst_keyed [Generator γ] (weight : α → Binary64) (g : γ) (xs : List α) :
    (keyed weight g xs).map (·.1) = xs := by
  induction xs generalizing g with
  | nil => rfl
  | cons x rest ih => rw [keyed_cons, List.map_cons, ih]

theorem mem_keyed [Generator γ] {weight : α → Binary64} {g : γ} {xs : List α}
    {a : α × Binary64} :
    a ∈ keyed weight g xs ↔ ∃ i x, xs[i]? = some x ∧ (x, weight x * magnitude g i) = a := by
  simp only [keyed, List.mem_iff_getElem?, List.getElem?_mapIdx, Option.map_eq_some_iff]

/-- One magnitude is drawn for each element. -/
theorem drawKeys_eq [Generator γ] {weight : α → Option Binary64} {w : α → Binary64}
    {xs : List α} (hw : ∀ x ∈ xs, weight x = some (w x)) (g : γ) :
    drawKeys weight g xs =
      (some ((keyed w g xs).map (·.2)), afterMagnitudes g xs.length) := by
  induction xs generalizing g with
  | nil => rfl
  | cons x rest ih =>
      have hrest := ih (fun y hy => hw y (List.mem_cons_of_mem x hy)) (Generator.exponential g).2
      rw [keyed_cons, List.length_cons, afterMagnitudes_succ]
      simp only [drawKeys, hw x List.mem_cons_self, hrest, Option.map_some, List.map_cons]

/-! ## Sorting by key -/

/-- Whether the key of the first element is below that of the second one. -/
def keyBefore (a b : α × Binary64) : Bool := a.2.rank < b.2.rank

theorem keyBefore_self (a : α × Binary64) : keyBefore a a = false := by
  simp [keyBefore]

theorem not_keyBefore_trans (a b c : α × Binary64) (hab : keyBefore b a = false)
    (hbc : keyBefore c b = false) : keyBefore c a = false := by
  simp only [keyBefore, decide_eq_false_iff_not, Int.not_lt] at *
  omega

theorem alike_keyBefore (a : α × Binary64) :
    alike keyBefore a = fun b => decide (b.2.rank = a.2.rank) := by
  funext b
  rw [Bool.eq_iff_iff, alike_iff, decide_eq_true_iff]
  simp only [keyBefore, decide_eq_false_iff_not, Int.not_lt]
  omega

theorem isStableSort_keys (keys : List (α × Binary64)) :
    IsStableSort keyBefore keys (keys.mergeSort fun a b => !keyBefore b a) := by
  refine isStableSort_mergeSort (fun a b => ?_) not_keyBefore_trans keys
  simp only [keyBefore, decide_eq_false_iff_not, Int.not_lt]
  omega

/-- Laid out by the sorted places of their keys, the elements are sorted by key. -/
theorem filterMap_ascending (keys : List (α × Binary64)) :
    (ascending (keys.map (·.2))).filterMap (keys[·]?) =
      keys.mergeSort fun a b => !keyBefore b a := by
  -- all three lists are read off the elements with their keys and their places
  have hplaces : ascending (keys.map (·.2)) =
      (keys.zipIdx.mergeSort fun a b => !keyBefore b.1 a.1).map (·.2) := by
    unfold ascending
    rw [List.zipIdx_map, ← List.map_mergeSort (r := fun a b => !keyBefore b.1 a.1), List.map_map]
    · rfl
    · intro a _ b _
      rw [Bool.eq_iff_iff]
      simp [keyBefore, Binary64.totalLE]
  have hsorted : (keys.zipIdx.mergeSort fun a b => !keyBefore b.1 a.1).map (·.1) =
      keys.mergeSort fun a b => !keyBefore b a := by
    rw [List.map_mergeSort (s := fun a b => !keyBefore b a) (fun _ _ _ _ => rfl),
      List.zipIdx_map_fst]
  rw [hplaces, ← hsorted, List.filterMap_map]
  rw [← List.filterMap_eq_map]
  refine List.filterMap_congr fun t ht => ?_
  rw [List.mem_mergeSort] at ht
  exact List.mk_mem_zipIdx_iff_getElem?.mp ht

/-- What a weighted shuffle lays out: the elements, sorted together with their keys. -/
theorem weightedShuffle_eq [Generator γ] {weight : α → Option Binary64} {w : α → Binary64}
    {xs : List α} (hw : ∀ x ∈ xs, weight x = some (w x)) (g : γ) :
    weightedShuffle weight g xs =
      (some (((keyed w g xs).mergeSort fun a b => !keyBefore b a).map (·.1)),
        afterMagnitudes g xs.length) := by
  have hfst := map_fst_keyed w g xs
  have horder := ascending_perm ((keyed w g xs).map (·.2))
  have hlength : ((keyed w g xs).map (·.2)).length = xs.length := by
    simpa using congrArg List.length hfst
  rw [hlength] at horder
  have hplace : ∀ i : Nat, Option.map Prod.fst (keyed w g xs)[i]? = xs[i]? := by
    intro i
    rw [← List.getElem?_map, hfst]
  unfold weightedShuffle
  rw [drawKeys_eq hw]
  dsimp only [Option.bind_some]
  rw [arrange?_eq horder, ← filterMap_ascending, List.map_filterMap]
  simp only [hplace]

/-- If all elements of one kind have smaller keys than all others, no other one stands before
one of this kind. -/
theorem exists_weightedShuffle_apart [Generator γ] {weight : α → Option Binary64}
    {w : α → Binary64} {xs : List α} (hw : ∀ x ∈ xs, weight x = some (w x)) (g : γ)
    {kind : α → Prop}
    (hbelow : ∀ i j x y, xs[i]? = some x → xs[j]? = some y → kind x → ¬kind y →
      (w x * magnitude g i).rank < (w y * magnitude g j).rank) :
    ∃ ys, (weightedShuffle weight g xs).1 = some ys ∧ ys.Perm xs ∧
      ys.Pairwise fun x y => kind y → kind x := by
  have hstable := isStableSort_keys (keyed w g xs)
  refine ⟨_, congrArg Prod.fst (weightedShuffle_eq hw g), ?_, List.pairwise_map.mpr ?_⟩
  · have hperm := (hstable.perm keyBefore_self).map Prod.fst
    rwa [map_fst_keyed] at hperm
  · refine hstable.ascending.imp_of_mem fun {a b} ha hb hab hkind => ?_
    obtain ⟨i, x, hx, rfl⟩ := mem_keyed.mp (List.mem_mergeSort.mp ha)
    obtain ⟨j, y, hy, rfl⟩ := mem_keyed.mp (List.mem_mergeSort.mp hb)
    by_contra hother
    have hless := hbelow j i y x hy hx hkind hother
    simp only [keyBefore, decide_eq_false_iff_not] at hab
    exact hab hless

/-- **A weighted shuffle is the stable sort by each element's own key.** Unless a weight is
missing, one magnitude is drawn for each element, and the elements are laid out with their
keys ascending, those of the same key as they stood. So every element stands behind as many
as have a smaller key, or the same one and an earlier place. Keys ascend as their bits do,
infinite ones and NaNs included. -/
theorem weightedShuffle_sorts [Generator γ] (weight : α → Option Binary64) (w : α → Binary64)
    (g : γ) (xs : List α) (hw : ∀ x ∈ xs, weight x = some (w x)) :
    let keys := xs.mapIdx fun i x => (x, w x * magnitude g i)
    (∀ p q : Nat, (Binary64.ofBits p).totalLE (.ofBits q) =
      decide (Binary64.signedBits p ≤ Binary64.signedBits q)) ∧
    ∃ laid : List (α × Binary64),
      weightedShuffle weight g xs = (some (laid.map (·.1)), afterMagnitudes g xs.length) ∧
      laid.Perm keys ∧ laid.Pairwise (fun a b => a.2.totalLE b.2 = true) ∧
      (∀ a : α × Binary64, laid.filter (·.2.rank = a.2.rank) = keys.filter (·.2.rank = a.2.rank)) ∧
      ∀ i x k, keys[i]? = some (x, k) →
        laid[keys.countP (·.2.rank < k.rank) + (keys.take i).countP (·.2.rank = k.rank)]? =
          some (x, k) := by
  intro keys
  have hstable := isStableSort_keys keys
  refine ⟨Binary64.totalLE_ofBits, keys.mergeSort fun a b => !keyBefore b a,
    weightedShuffle_eq hw g, ?_, ?_, ?_, ?_⟩
  · exact hstable.perm keyBefore_self
  · refine hstable.ascending.imp fun {a b} hab => ?_
    simpa [keyBefore, Binary64.totalLE] using hab
  · intro a
    rw [← alike_keyBefore]
    exact hstable.stable a
  · intro i x k hi
    have hstands := hstable.getElem?_standing keyBefore_self not_keyBefore_trans hi
    simpa only [alike_keyBefore, keyBefore] using hstands

/-- Five endpoints whose keys are a NaN, the NaN with the sign bit set, negative infinity, a
negative number and once more the NaN with the sign bit set. -/
theorem weightedShuffle_sorts_of_unruly :
    let g := Strategy.rigged.entropy.seed 0
    let w := fun e => (Strategy.unrulyWeight e).getD .zero
    (∀ e ∈ Strategy.motley, Strategy.unrulyWeight e = some (w e)) ∧
      ∃ ys, (weightedShuffle Strategy.unrulyWeight g Strategy.motley).1 = some ys ∧
        ys.map (·.id) = ["bottomless", "near", "owing", "owing", "nowhere"] := by
  intro g w
  have hw : ∀ e ∈ Strategy.motley, Strategy.unrulyWeight e = some (w e) := fun _ _ => rfl
  obtain ⟨-, laid, hshuffle, hperm, -, -, hstands⟩ :=
    weightedShuffle_sorts Strategy.unrulyWeight w g Strategy.motley hw
  refine ⟨hw, laid.map (·.1), congrArg Prod.fst hshuffle, ?_⟩
  let keys := Strategy.motley.mapIdx fun i e => (e, w e * magnitude g i)
  let place := fun i (k : Binary64) =>
    keys.countP (·.2.rank < k.rank) + (keys.take i).countP (·.2.rank = k.rank)
  have hplaced : ∀ i k p name, (keys[i]?).map (fun c => (c.1.id, c.2)) = some (name, k) →
      place i k = p → (laid.map (·.1.id))[p]? = some name := by
    intro i k p name hi hp
    obtain ⟨⟨e, k'⟩, hkey, hname⟩ := Option.map_eq_some_iff.mp hi
    obtain ⟨rfl, rfl⟩ := Prod.mk.inj hname
    rw [← hp, List.getElem?_map, hstands i e k' hkey]
    rfl
  have hlength : laid.length = 5 := hperm.length_eq
  rw [List.map_map]
  refine List.ext_getElem? fun p => ?_
  match p with
  | 0 => exact hplaced 1 (.nan true) 0 _ (by decide +kernel) (by decide +kernel)
  | 1 => exact hplaced 4 (.nan true) 1 _ (by decide +kernel) (by decide +kernel)
  | 2 => exact hplaced 2 (.infinite true) 2 _ (by decide +kernel) (by decide +kernel)
  | 3 => exact hplaced 3 (.finite true unitsPerOne) 3 _ (by decide +kernel) (by decide +kernel)
  | 4 => exact hplaced 0 (.nan false) 4 _ (by decide +kernel) (by decide +kernel)
  | p + 5 => simp [hlength]

end Tenure
