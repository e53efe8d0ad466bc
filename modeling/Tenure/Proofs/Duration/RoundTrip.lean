import Tenure.Proofs.Duration.Grammar
import Tenure.Proofs.Numeric.Arithmetic
import Tenure.Proofs.Numeric.Shortest

/-!
# A duration reads back

What `Duration.render` writes is one term, a decimal and the unit `s`, and `Duration.parse?` takes
it apart again (`parse?_text_append`). That decimal reads back as the double it was written for,
so that only the arithmetic on both sides is left: the quotient of the lower limb, the sum of the
limbs, the product with a thousand million, and the sum over the terms, with one rounding each
(`exists_asSeconds`, `exists_totalNanos`). A magnitude moves by its `2^53`-th part at most in each,
which for `2^50` nanoseconds is an eighth of one; the quotient is at most a second and moves far
less. Together that is less than the half from which on rounding to whole nanoseconds would give
another one (`roundHalfUp_of_near`).
-/

namespace Tenure

open Numeric

/-! ## Terms -/

theorem splitNumber?_of_isDecimalText {cs whole fraction : List Char}
    (h : IsDecimalText cs whole fraction) : splitNumber? cs = some (whole, fraction) := by
  have hwhole := point_notMem h.isDigit_whole
  have hfraction := point_notMem h.isDigit_fraction
  rcases h.text with ⟨rfl, rfl⟩ | rfl
  · rw [splitNumber?_of_notMem hwhole, if_neg h.whole_ne_nil]
  · rw [splitNumber?_append hwhole, if_neg (not_or.mpr ⟨hfraction, fun hnone => ?_⟩)]
    exact h.whole_ne_nil hnone.1

theorem isNumberChar_of_isDecimalText {cs whole fraction : List Char}
    (h : IsDecimalText cs whole fraction) : ∀ c ∈ cs, isNumberChar c = true := by
  rcases h.text with ⟨rfl, _⟩ | rfl
  · exact fun c hc => isNumberChar_of_isDigit (h.isDigit_whole c hc)
  · simp only [List.forall_mem_append, List.forall_mem_cons]
    exact ⟨fun c hc => isNumberChar_of_isDigit (h.isDigit_whole c hc), rfl,
      fun c hc => isNumberChar_of_isDigit (h.isDigit_fraction c hc)⟩

theorem isBlank_of_isNumberChar {c : Char} (h : isNumberChar c = true) :
    Text.isBlank c = false := by
  rcases Bool.or_eq_true_iff.mp h with hdigit | hpoint
  · obtain ⟨hlow, hhigh⟩ := Bool.and_eq_true_iff.mp hdigit
    have hlow : 48 ≤ c.toNat := UInt32.le_iff_toNat_le.mp (of_decide_eq_true hlow)
    have hhigh : c.toNat ≤ 57 := UInt32.le_iff_toNat_le.mp (of_decide_eq_true hhigh)
    simp only [Text.isBlank, Bool.or_eq_false_iff, Bool.and_eq_false_iff, decide_eq_false_iff_not,
      beq_eq_false_iff_ne]
    omega
  · obtain rfl := beq_iff_eq.mp hpoint
    rfl

namespace Duration

/-- A text of terms is read as what they add up to. -/
theorem parse?_of_durationTerms? {s : String} {terms : List DurationTerm}
    (hblank : ∀ c ∈ s.toList, Text.isBlank c = false)
    (hterms : durationTerms? s.toList = some terms) (hsome : terms ≠ []) :
    parse? s = some (ofNanos ((totalNanos terms).roundClamped nanosCap)) := by
  unfold parse?
  rw [Text.trimChars_eq_self hblank]
  split
  · rename_i hnone
    rw [hnone, durationTerms?] at hterms
    exact absurd (Option.some.inj hterms).symm hsome
  · rename_i hbare
    have hunread : durationTerms? ['0'] = none := by
      rw [durationTerms?]
      rfl
    rw [hbare, hunread] at hterms
    cases hterms
  · rw [hterms]
    rfl

/-- Reading what is written for a finite number of seconds: one term, whose number is that. -/
theorem parse?_text_append (tie : Tie) {units : Nat} (hunits : Representable units) :
    ∃ term : DurationTerm, term.unit = .second ∧
      Binary64.ofDigits term.whole term.fraction = .finite false units ∧
      parse? (Binary64.text tie (.finite false units) ++ "s") =
        some (ofNanos ((totalNanos [term]).roundClamped nanosCap)) := by
  obtain ⟨whole, fraction, htext, hdigits⟩ := exists_positionalText tie hunits
  refine ⟨⟨whole, fraction, .second⟩, rfl, hdigits, ?_⟩
  have hnumber := isNumberChar_of_isDecimalText htext
  have hterms : durationTerms? (positionalText tie units ++ ['s']) =
      some [⟨whole, fraction, .second⟩] :=
    durationTerms?_single ⟨htext.ne_nil, hnumber⟩ (splitNumber?_of_isDecimalText htext) rfl
  have hchars : (Binary64.text tie (.finite false units) ++ "s").toList =
      positionalText tie units ++ ['s'] := by
    rw [String.toList_append, Binary64.text, String.toList_ofList]
    rfl
  refine parse?_of_durationTerms? ?_ ?_ (by simp)
  · rw [hchars]
    exact List.forall_mem_append.mpr ⟨fun c hc => isBlank_of_isNumberChar (hnumber c hc),
      List.forall_mem_singleton.mpr rfl⟩
  · rw [hchars, hterms]

/-! ## Arithmetic of seconds -/

theorem eq_zero_or_le_mul (n : Nat) : n = 0 ∨ unitsPerOne ≤ n * unitsPerOne := by
  rcases Nat.eq_zero_or_pos n with hzero | hpos
  · exact .inl hzero
  · exact .inr (Nat.le_mul_of_pos_left _ hpos)

/-- The lower limb in seconds, with one rounding. -/
theorem exists_quotient (d : Duration) :
    ∃ quotient, Binary64.ofNat d.subsecNanos / Binary64.ofNat nanosPerSecond =
        .finite false quotient ∧
      Near (quotient * nanosPerSecond) (d.subsecNanos * unitsPerOne) := by
  have hsub : d.subsecNanos < 1000000000 := Nat.mod_lt _ (by decide)
  have hlarge := unitsPerOne_large
  have hoverflow := overflowUnits_large
  have hnanos : d.subsecNanos * unitsPerOne ≤ 1000000000 * unitsPerOne :=
    Nat.mul_le_mul_right _ (by omega)
  have hnear : Near (roundUnits (d.subsecNanos * unitsPerOne) 1000000000 * 1000000000)
      (d.subsecNanos * unitsPerOne) := by
    refine near_roundUnits (by decide) ?_
    rcases eq_zero_or_le_mul d.subsecNanos with hzero | hmore
    · exact .inl (by rw [hzero, Nat.zero_mul])
    · exact .inr (by omega)
  have hpositive : 1000000000 * unitsPerOne ≠ 0 := by omega
  have hscaled : roundUnits (d.subsecNanos * unitsPerOne * unitsPerOne)
      (1000000000 * unitsPerOne) = roundUnits (d.subsecNanos * unitsPerOne) 1000000000 :=
    roundUnits_scale _ _ unitsPerOne_pos
  have hfits := hnear.le
  refine ⟨roundUnits (d.subsecNanos * unitsPerOne) 1000000000, ?_, hnear⟩
  unfold nanosPerSecond
  rw [Binary64.ofNat_of_lt (by omega), Binary64.ofNat_of_lt (by omega),
    Binary64.div_finite _ hpositive, Binary64.ofUnitsRatio_of_lt (by rw [hscaled]; omega), hscaled]

/-- The seconds of a duration as a double: the quotient of the lower limb and the sum are rounded
once each. -/
theorem exists_asSeconds (d : Duration) (h : d.nanos ≤ 2 ^ 50) :
    ∃ quotient units, d.asSeconds = .finite false units ∧ Representable units ∧
      (units = 0 ∨ 2 ^ 53 ≤ units) ∧ units ≤ 2 ^ 60 * unitsPerOne ∧
      Near (quotient * nanosPerSecond) (d.subsecNanos * unitsPerOne) ∧
      Near units (d.secs * unitsPerOne + quotient) := by
  obtain ⟨quotient, hdivided, hquotient⟩ := d.exists_quotient
  refine ⟨quotient, roundUnits (d.secs * unitsPerOne + quotient) 1, ?_⟩
  have hsplit : d.secs * 1000000000 + d.subsecNanos = d.nanos := Nat.div_add_mod' _ _
  have hsub : d.subsecNanos < 1000000000 := Nat.mod_lt _ (by decide)
  have hlarge := unitsPerOne_large
  have hoverflow := overflowUnits_large
  have hsecs : d.secs * unitsPerOne ≤ 2 ^ 50 * unitsPerOne := Nat.mul_le_mul_right _ (by omega)
  have hnanos : d.subsecNanos * unitsPerOne ≤ 1000000000 * unitsPerOne :=
    Nat.mul_le_mul_right _ (by omega)
  obtain ⟨hle, hge⟩ := hquotient
  unfold nanosPerSecond at hle hge
  have hlimbs : d.secs * unitsPerOne + quotient = 0 ∨ 2 ^ 60 ≤ d.secs * unitsPerOne + quotient := by
    rcases eq_zero_or_le_mul d.secs with hzero | hmore
    · rcases eq_zero_or_le_mul d.subsecNanos with hzero' | hmore
      · rw [hzero', Nat.zero_mul] at hle
        exact .inl (by rw [hzero, Nat.zero_mul]; omega)
      · exact .inr (by omega)
    · exact .inr (by omega)
  have hsum : Near (roundUnits (d.secs * unitsPerOne + quotient) 1 * 1)
      (d.secs * unitsPerOne + quotient) := near_roundUnits (by decide) (by omega)
  rw [Nat.mul_one] at hsum
  have hsumLe := hsum.le
  have hsumGe := hsum.ge
  have hfits : roundUnits (d.secs * unitsPerOne + quotient) 1 < overflowUnits := by omega
  refine ⟨?_, representable_roundUnits (by decide) hfits, by omega, by omega, ⟨hle, hge⟩, hsum⟩
  unfold asSeconds
  rw [hdivided, Binary64.ofNat_of_lt (by omega), Binary64.add_finite,
    Binary64.ofUnitsRatio_of_lt hfits]

/-- Seconds as a double are taken a thousand million times and added to nothing, each with one
rounding. -/
theorem exists_totalNanos {term : DurationTerm} {units : Nat} (hunit : term.unit = .second)
    (hnumber : Binary64.ofDigits term.whole term.fraction = .finite false units)
    (hlarge : units = 0 ∨ 2 ^ 53 ≤ units) (hsmall : units ≤ 2 ^ 60 * unitsPerOne) :
    ∃ product total, totalNanos [term] = .finite false total ∧
      Near product (units * nanosPerSecond) ∧ Near total product := by
  have hpos := unitsPerOne_pos
  have hoverflow := overflowUnits_large
  have hproduct : Near (roundUnits (units * 1000000000) 1 * 1) (units * 1000000000) :=
    near_roundUnits (by decide) (by omega)
  rw [Nat.mul_one] at hproduct
  have hle := hproduct.le
  have hscaled : roundUnits (units * (1000000000 * unitsPerOne)) unitsPerOne =
      roundUnits (units * 1000000000) 1 := by
    have hscale := roundUnits_scale (units * 1000000000) 1 unitsPerOne_pos
    rwa [Nat.one_mul, Nat.mul_assoc] at hscale
  have hnanos : term.nanos = .finite false (roundUnits (units * 1000000000) 1) := by
    have hsecond : TimeUnit.second.nanos = 1000000000 := rfl
    unfold DurationTerm.nanos
    rw [hnumber, hunit, hsecond, Binary64.ofNat_of_lt (by omega), Binary64.mul_finite,
      Binary64.ofUnitsRatio_of_lt (by rw [hscaled]; omega), hscaled]
  generalize roundUnits (units * 1000000000) 1 = product at *
  have htotal : Near (roundUnits product 1 * 1) product := by
    have hge := hproduct.ge
    exact near_roundUnits (by decide) (by omega)
  rw [Nat.mul_one] at htotal
  have hle' := htotal.le
  refine ⟨product, roundUnits product 1, ?_, hproduct, htotal⟩
  unfold totalNanos Binary64.zero
  rw [List.foldl_cons, List.foldl_nil, hnanos, Binary64.add_finite, Nat.zero_add,
    Binary64.ofUnitsRatio_of_lt (by omega)]

/-- Four roundings move less than half a nanosecond: that of the quotient less than a millionth of
one, and each of the others at most an eighth. -/
theorem roundHalfUp_of_near {nanos secs rest quotient units product total : Nat}
    (hnanos : secs * nanosPerSecond + rest = nanos) (hrest : rest < nanosPerSecond)
    (h : nanos ≤ 2 ^ 50) (hquotient : Near (quotient * nanosPerSecond) (rest * unitsPerOne))
    (hunits : Near units (secs * unitsPerOne + quotient))
    (hproduct : Near product (units * nanosPerSecond)) (htotal : Near total product) :
    Binary64.roundHalfUp total = nanos := by
  unfold nanosPerSecond at hnanos hrest hquotient hproduct
  have hexact : nanos * unitsPerOne = 1000000000 * (secs * unitsPerOne) + rest * unitsPerOne := by
    rw [← hnanos, Nat.add_mul, Nat.mul_right_comm, Nat.mul_comm]
  have hbound : nanos * unitsPerOne ≤ 2 ^ 50 * unitsPerOne := Nat.mul_le_mul_right _ h
  have hlimb : rest * unitsPerOne ≤ 1000000000 * unitsPerOne := Nat.mul_le_mul_right _ hrest.le
  have hsmall : 2 ^ 23 * (rest * unitsPerOne) ≤ 2 ^ 53 * unitsPerOne := by omega
  obtain ⟨hquotientLe, hquotientGe⟩ := hquotient.within _ hsmall
  have hsmall : 7 * ((secs * unitsPerOne + quotient) * 1000000000) ≤ 2 ^ 53 * unitsPerOne := by
    omega
  obtain ⟨hunitsLe, hunitsGe⟩ := (hunits.mul _).within _ hsmall
  have hsmall : 7 * (units * 1000000000) ≤ 2 ^ 53 * unitsPerOne := by
    linarith only [hunitsLe, hquotientLe, hexact, hbound]
  obtain ⟨hproductLe, hproductGe⟩ := hproduct.within _ hsmall
  have hsmall : 7 * product ≤ 2 ^ 53 * unitsPerOne := by
    linarith only [hproductLe, hunitsLe, hquotientLe, hexact, hbound]
  obtain ⟨htotalLe, htotalGe⟩ := htotal.within _ hsmall
  have hpos := unitsPerOne_pos
  unfold Binary64.roundHalfUp
  refine Nat.div_eq_of_lt_le ?_ ?_
  · have hlower : nanos * (2 * unitsPerOne) = 2 * (nanos * unitsPerOne) := Nat.mul_left_comm _ _ _
    omega
  · have hupper : (nanos + 1) * (2 * unitsPerOne) =
        2 * (nanos * unitsPerOne) + 2 * unitsPerOne := by
      rw [Nat.succ_mul, Nat.mul_left_comm]
    omega

/-- A duration of at most `2^50` nanoseconds is read back from what is written for it. -/
theorem parse?_render {d : Duration} (h : d.nanos ≤ 2 ^ 50) : parse? d.render = some d := by
  obtain ⟨quotient, units, hseconds, hrepresentable, hlarge, hsmall, hquotient, hunits⟩ :=
    d.exists_asSeconds h
  obtain ⟨term, hunit, hnumber, hparse⟩ := parse?_text_append .upper hrepresentable
  obtain ⟨product, total, htotal, hproduct, hsum⟩ := exists_totalNanos hunit hnumber hlarge hsmall
  have hround := roundHalfUp_of_near (Nat.div_add_mod' d.nanos nanosPerSecond)
    (Nat.mod_lt _ (by decide)) h hquotient hunits hproduct hsum
  have hcap : d.nanos ≤ nanosCap := by
    have hbound : 2 ^ 50 ≤ nanosCap := by decide
    omega
  unfold render
  rw [hseconds, hparse, htotal, Binary64.roundClamped, hround, Nat.min_eq_left hcap, ofNanos,
    ofNanos?_eq_some_iff.mpr rfl, Option.getD_some]

end Duration

end Tenure
