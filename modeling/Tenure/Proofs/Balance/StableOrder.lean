import Mathlib.Data.List.Perm.Basic

/-!
# Stable orders

`IsStableSort before xs ys`: the elements of `xs`, laid out so that none stands behind one
that it goes before, and those that nothing puts before each other stand as they stood.

* `IsStableSort.unique` — at most one list is that, so the relation says all there is to
  say about a result;
* `isStableSort_mergeSort`, `isStableSort_partition` — sorting and partitioning;
* `IsStableSort.trans` — one after the other, the later sort decides first;
* `IsStableSort.getElem?_standing` — where an element of the one list stands in the other.
-/

namespace Tenure

variable {α β : Type} {before next : α → α → Bool} {xs ys zs : List α}

/-- Neither goes before the other. -/
def alike (before : α → α → Bool) (a b : α) : Bool := !before a b && !before b a

/-- As the first order says, and as the second one says where the first does not decide. -/
def thenBy (before next : α → α → Bool) (a b : α) : Bool :=
  before a b || (alike before a b && next a b)

/-- The second list is the first one in order, with elements that are alike in their old order. -/
structure IsStableSort (before : α → α → Bool) (xs ys : List α) : Prop where
  ascending : ys.Pairwise fun a b => before b a = false
  stable : ∀ a, ys.filter (alike before a) = xs.filter (alike before a)

/-- A list in which every element that satisfies a predicate has only such elements before it. -/
theorem eq_filter_append {p : α → Bool} (h : xs.Pairwise fun a b => p b = true → p a = true) :
    xs = xs.filter p ++ xs.filter (!p ·) := by
  induction xs with
  | nil => rfl
  | cons a xs ih =>
      obtain ⟨hfirst, hrest⟩ := List.pairwise_cons.mp h
      by_cases ha : p a = true
      · rw [List.filter_cons_of_pos ha, List.filter_cons_of_neg (by simp [ha]), List.cons_append,
          ← ih hrest]
      · have hnone : xs.filter p = [] :=
          List.filter_eq_nil_iff.mpr fun b hb hpb => ha (hfirst b hb hpb)
        have hall : xs.filter (!p ·) = xs := by
          have hsplit := ih hrest
          rwa [hnone, List.nil_append, eq_comm] at hsplit
        rw [List.filter_cons_of_neg ha, hnone, List.filter_cons_of_pos (by simp [ha]), hall,
          List.nil_append]

theorem alike_self (irrefl : ∀ a, before a a = false) (a : α) : alike before a a = true := by
  simp [alike, irrefl a]

theorem alike_iff {a b : α} :
    alike before a b = true ↔ before a b = false ∧ before b a = false := by
  simp [alike]

theorem alike_thenBy (a b : α) :
    alike (thenBy before next) a b = (alike before a b && alike next a b) := by
  cases hab : before a b <;> cases hba : before b a <;> simp [alike, thenBy, hab, hba]

namespace IsStableSort

theorem perm (irrefl : ∀ a, before a a = false) (h : IsStableSort before xs ys) :
    ys.Perm xs := by
  classical
  refine List.perm_iff_count.mpr fun a => ?_
  have hself := alike_self irrefl a
  rw [← List.count_filter hself, h.stable, List.count_filter hself]

/-- A list in order is left as it is. -/
theorem again (h : IsStableSort before xs ys) : IsStableSort before ys ys :=
  ⟨h.ascending, fun _ => rfl⟩

/-- The first elements are alike, since each occurs in the other list; so they are the first
ones of one class, and the same. -/
theorem unique (irrefl : ∀ a, before a a = false) (hy : IsStableSort before xs ys)
    (hz : IsStableSort before xs zs) : ys = zs := by
  have hsame : ∀ a, ys.filter (alike before a) = zs.filter (alike before a) := by
    intro a
    rw [hy.stable, hz.stable]
  have hyz : ys.Perm zs := (hy.perm irrefl).trans (hz.perm irrefl).symm
  replace hy := hy.ascending
  replace hz := hz.ascending
  induction ys generalizing zs with
  | nil => exact hyz.symm.eq_nil.symm
  | cons y ys ih =>
      cases zs with
      | nil => exact hyz.eq_nil
      | cons z zs =>
          obtain ⟨hfirst, hrest⟩ := List.pairwise_cons.mp hy
          obtain ⟨hfirst', hrest'⟩ := List.pairwise_cons.mp hz
          have hzy : before z y = false := by
            rcases List.mem_cons.mp (hyz.mem_iff.mpr List.mem_cons_self) with rfl | hmem
            · exact irrefl z
            · exact hfirst z hmem
          have hyz' : before y z = false := by
            rcases List.mem_cons.mp (hyz.mem_iff.mp List.mem_cons_self) with rfl | hmem
            · exact irrefl y
            · exact hfirst' y hmem
          have halike : alike before y z = true := alike_iff.mpr ⟨hyz', hzy⟩
          have heads := hsame y
          rw [List.filter_cons_of_pos (alike_self irrefl y), List.filter_cons_of_pos halike]
            at heads
          obtain ⟨rfl, -⟩ := List.cons.inj heads
          have htails : ∀ a, ys.filter (alike before a) = zs.filter (alike before a) := by
            intro a
            have hfilter := hsame a
            by_cases ha : alike before a y = true
            · rw [List.filter_cons_of_pos ha, List.filter_cons_of_pos ha] at hfilter
              exact (List.cons.inj hfilter).2
            · rwa [List.filter_cons_of_neg ha, List.filter_cons_of_neg ha] at hfilter
          rw [ih htails hyz.cons_inv hrest hrest']

/-- Two elements that the later sort does not separate are in the order of the earlier one. -/
theorem trans (hx : IsStableSort next xs ys) (hy : IsStableSort before ys zs)
    (irrefl : ∀ a, before a a = false) : IsStableSort (thenBy before next) xs zs := by
  refine ⟨?_, fun a => ?_⟩
  · rw [List.pairwise_iff_forall_sublist]
    intro a b hab
    have hlater : before b a = false := List.pairwise_iff_forall_sublist.mp hy.ascending hab
    by_cases halike : alike before a b = true
    · have hclass : [a, b].Sublist (zs.filter (alike before a)) := by
        have hpair := hab.filter (alike before a)
        rwa [List.filter_cons_of_pos (alike_self irrefl a),
          List.filter_cons_of_pos halike] at hpair
      rw [hy.stable] at hclass
      have hearlier : next b a = false :=
        List.pairwise_iff_forall_sublist.mp hx.ascending (hclass.trans List.filter_sublist)
      simp [thenBy, hlater, hearlier]
    · have hapart : alike before b a = false := by
        rw [alike, Bool.and_comm]
        exact Bool.eq_false_iff.mpr halike
      simp [thenBy, hlater, hapart]
  · have hsplit : ∀ l : List α, l.filter (alike (thenBy before next) a) =
        (l.filter (alike before a)).filter (alike next a) := by
      intro l
      rw [List.filter_filter]
      refine List.filter_congr fun b _ => ?_
      rw [alike_thenBy, Bool.and_comm]
    rw [hsplit, hy.stable, hsplit, List.filter_filter, List.filter_filter]
    simp only [Bool.and_comm (alike next a _)]
    rw [← List.filter_filter, hx.stable, List.filter_filter]

/-- What goes before an element stands first, what is alike with it follows, and of these the
ones that stood before it. -/
theorem getElem?_standing (irrefl : ∀ a, before a a = false)
    (negTrans : ∀ a b c, before b a = false → before c b = false → before c a = false)
    (h : IsStableSort before xs ys) {i : Nat} {a : α} (hi : xs[i]? = some a) :
    ys[xs.countP (before · a) + (xs.take i).countP (alike before a)]? = some a := by
  obtain ⟨hbound, rfl⟩ := List.getElem?_eq_some_iff.mp hi
  generalize hx : xs[i] = a
  -- the elements that go before `a`, then those alike with it, then the others
  have hfront : ys = ys.filter (before · a) ++ ys.filter (!before · a) := by
    apply eq_filter_append
    refine h.ascending.imp fun {b c} hcb hca => ?_
    by_contra hba
    have hcon := negTrans a b c (Bool.eq_false_iff.mpr hba) hcb
    rw [hca] at hcon
    exact Bool.false_ne_true hcon.symm
  have hclass : (ys.filter (!before · a)).filter (alike before a) = xs.filter (alike before a) := by
    rw [← h.stable, List.filter_filter]
    refine List.filter_congr fun b _ => ?_
    cases hba : before b a <;> simp [alike, hba]
  have hmiddle : ys.filter (!before · a) =
      xs.filter (alike before a) ++ (ys.filter (!before · a)).filter (!alike before a ·) := by
    rw [← hclass]
    apply eq_filter_append
    refine (List.pairwise_filter.mpr (h.ascending.imp fun {b c} hcb hb hc => ?_))
    intro halike
    have hab := negTrans b c a hcb (alike_iff.mp halike).1
    exact alike_iff.mpr ⟨hab, by simpa using hb⟩
  have hfirst : (ys.filter (before · a)).length = xs.countP (before · a) := by
    rw [← List.countP_eq_length_filter, (h.perm irrefl).countP_eq]
  have hself : (xs.filter (alike before a))[(xs.take i).countP (alike before a)]? = some a := by
    have hsplit : xs = xs.take i ++ a :: xs.drop (i + 1) := by
      rw [← hx, List.getElem_cons_drop, List.take_append_drop]
    conv in xs.filter _ => rw [hsplit]
    rw [List.filter_append, List.countP_eq_length_filter,
      List.getElem?_append_right (Nat.le_refl _), Nat.sub_self,
      List.filter_cons_of_pos (alike_self irrefl a), List.getElem?_cons_zero]
  rw [hfront, ← hfirst, List.getElem?_append_right (Nat.le_add_right _ _), Nat.add_sub_cancel_left,
    hmiddle, List.getElem?_append_left, hself]
  exact (List.getElem?_eq_some_iff.mp hself).1

end IsStableSort

/-- Sorting by merging is stable. -/
theorem isStableSort_mergeSort (total : ∀ a b, before b a = false ∨ before a b = false)
    (negTrans : ∀ a b c, before b a = false → before c b = false → before c a = false)
    (xs : List α) : IsStableSort before xs (xs.mergeSort fun a b => !before b a) := by
  have htrans : ∀ a b c, (!before b a) = true → (!before c b) = true → (!before c a) = true := by
    simpa using negTrans
  have htotal : ∀ a b, (!before b a || !before a b) = true := by
    simpa using total
  refine ⟨?_, fun a => ?_⟩
  · exact (List.pairwise_mergeSort htrans htotal xs).imp (by simp)
  · -- a class is in order as it stands, so it is found again in what the sort leaves
    have hclass : (xs.filter (alike before a)).Pairwise fun b c => (!before c b) = true := by
      refine List.pairwise_filter.mpr (List.pairwise_of_forall fun {b c} hb hc => ?_)
      simpa using negTrans b a c (alike_iff.mp hb).1 (alike_iff.mp hc).2
    have hsub := (List.sublist_mergeSort htrans htotal hclass List.filter_sublist).filter
      (alike before a)
    rw [List.filter_filter] at hsub
    simp only [Bool.and_self] at hsub
    refine (hsub.eq_of_length ?_).symm
    exact ((List.mergeSort_perm xs _).filter _).length_eq.symm

/-- A partition puts the elements that satisfy a predicate first. -/
theorem isStableSort_partition (p : α → Bool) (xs : List α) :
    IsStableSort (fun a b => p a && !p b) xs (xs.filter p ++ xs.filter (!p ·)) := by
  refine ⟨List.pairwise_append.mpr ⟨?_, ?_, ?_⟩, fun a => ?_⟩
  · refine List.pairwise_filter.mpr (List.pairwise_of_forall fun {b c} hb _ => ?_)
    simp [hb]
  · refine List.pairwise_filter.mpr (List.pairwise_of_forall fun {b c} _ hc => ?_)
    simpa using fun hpc => absurd hpc (by simpa using hc)
  · intro b hb c _
    simp [(List.mem_filter.mp hb).2]
  · have hclass : alike (fun a b => p a && !p b) a = fun b => p a == p b := by
      funext b
      cases ha : p a <;> cases hb : p b <;> simp [alike, ha, hb]
    rw [hclass, List.filter_append, List.filter_filter, List.filter_filter]
    cases ha : p a <;> simp

end Tenure
