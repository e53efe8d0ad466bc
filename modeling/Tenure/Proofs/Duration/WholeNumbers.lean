import Tenure.Proofs.Duration.RoundTrip

/-!
# Durations of whole numbers are exact

A duration is added up in doubles and rounded at every step, yet whole numbers of any units come out
to the nanosecond as long as their sum is at most `2^53`: up to there every natural number is a
double, so each term and each partial sum is one, and none of the roundings does anything.

* `Binary64.whole` is a natural number as a double; `ofNat_whole`, `whole_mul` and `whole_add`
  compute with it, and `roundClamped_whole` reads it back;
* `WholeTerm` is a term of a whole number as it may be written, `WholeTerm.nanos_term` the double
  it counts for and `foldl_whole` the running sum;
* a document may also give a number of seconds, which is converted by another route;
  `Duration.ofNode_number` takes that one, and `Duration.whole_durations_exact` has both.
-/

namespace Tenure

open Numeric Json

/-! ## Whole doubles -/

namespace Numeric.Binary64

/-- A natural number as a double, where it is one. -/
def whole (n : Nat) : Binary64 := .finite false (n * unitsPerOne)

theorem roundUnits_whole {n : Nat} (h : n ≤ 2 ^ 53) :
    roundUnits (n * unitsPerOne) 1 = n * unitsPerOne := by
  unfold unitsPerOne
  generalize 1074 = k
  -- the bound itself is a number of 54 bits, but its last one is zero
  rcases Nat.lt_or_eq_of_le h with hless | rfl
  · exact roundUnits_mul_step hless
  · have hnext : 2 ^ 53 * Nat.pow 2 k = 2 ^ 52 * Nat.pow 2 (k + 1) := by
      rw [step_succ]
      omega
    rw [hnext]
    exact roundUnits_mul_step (by decide)

theorem ofUnitsRatio_whole {n num den : Nat} (h : n ≤ 2 ^ 53) (hden : 0 < den)
    (hexact : num = n * unitsPerOne * den) : ofUnitsRatio false num den = whole n := by
  have hround : roundUnits num den = n * unitsPerOne := by
    have hscale := roundUnits_scale (n * unitsPerOne) 1 hden
    rwa [Nat.one_mul, ← hexact, roundUnits_whole h] at hscale
  have hoverflow := overflowUnits_large
  have hpos := unitsPerOne_pos
  have hunits : n * unitsPerOne ≤ 2 ^ 53 * unitsPerOne := Nat.mul_le_mul_right _ h
  rw [ofUnitsRatio_of_lt (by omega), hround, whole]

/-- Natural numbers up to `2^53` are doubles. -/
theorem ofNat_whole {n : Nat} (h : n ≤ 2 ^ 53) : Binary64.ofNat n = whole n := by
  unfold Binary64.ofNat ofRatio
  exact ofUnitsRatio_whole h (by decide) (Nat.mul_one _).symm

/-- Their products and sums are exact as long as they do not go beyond that. -/
theorem whole_mul {m n : Nat} (h : m * n ≤ 2 ^ 53) : whole m * whole n = whole (m * n) := by
  have hexact : m * unitsPerOne * (n * unitsPerOne) = m * n * unitsPerOne * unitsPerOne := by
    rw [Nat.mul_mul_mul_comm, Nat.mul_assoc (m * n)]
  unfold whole
  rw [mul_finite, ofUnitsRatio_whole h unitsPerOne_pos hexact, whole]

theorem whole_add {m n : Nat} (h : m + n ≤ 2 ^ 53) : whole m + whole n = whole (m + n) := by
  unfold whole
  rw [add_finite, ← Nat.add_mul, ofUnitsRatio_whole h (by decide) (Nat.mul_one _).symm, whole]

/-- A whole double is rounded to itself. -/
theorem roundClamped_whole {n bound : Nat} (h : n ≤ bound) : roundClamped bound (whole n) = n := by
  have hpos := unitsPerOne_pos
  have hround : roundHalfUp (n * unitsPerOne) = n := by
    have hshape : 2 * (n * unitsPerOne) + unitsPerOne = unitsPerOne + 2 * unitsPerOne * n := by
      rw [Nat.mul_comm n, ← Nat.mul_assoc, Nat.add_comm]
    unfold roundHalfUp
    rw [hshape, Nat.add_mul_div_left _ _ (by omega), Nat.div_eq_of_lt (by omega), Nat.zero_add]
  rw [whole, roundClamped, hround, Nat.min_eq_left h]

end Numeric.Binary64

/-! ## Terms of whole numbers -/

/-- A term of a whole number: the number in decimal, which may begin with zeros, and its unit in one
of the unit's spellings. -/
structure WholeTerm where
  zeros : Nat := 0
  number : Nat
  unit : TimeUnit
  spelling : List Char
  spelled : spelling ∈ unit.spellings

theorem TimeUnit.ofChars?_of_mem {u : TimeUnit} {cs : List Char} (h : cs ∈ u.spellings) :
    ofChars? cs = some u := by
  have hall : u.spellings.all (fun cs => ofChars? cs == some u) = true := by cases u <;> rfl
  exact beq_iff_eq.mp (List.all_eq_true.mp hall cs h)

theorem TimeUnit.nanos_bounds (u : TimeUnit) : 1 ≤ u.nanos ∧ u.nanos ≤ 2 ^ 53 := by
  cases u <;> decide

theorem TimeUnit.isBlank_of_mem {u : TimeUnit} {cs : List Char} (h : cs ∈ u.spellings) :
    ∀ c ∈ cs, Text.isBlank c = false := by
  have hall : u.spellings.all (fun cs => cs.all (!Text.isBlank ·)) = true := by cases u <;> rfl
  intro c hc
  simpa using List.all_eq_true.mp (List.all_eq_true.mp hall cs h) c hc

namespace WholeTerm

/-- The digits of the number, the leading zeros included. -/
def digits (t : WholeTerm) : List Char := List.replicate t.zeros '0' ++ decimalDigits t.number

/-- The term as it is written. -/
def text (t : WholeTerm) : List Char := t.digits ++ t.spelling

/-- What the term stands for, in nanoseconds. -/
def nanos (t : WholeTerm) : Nat := t.number * t.unit.nanos

/-- The term as it is read. -/
def term (t : WholeTerm) : DurationTerm := ⟨t.digits, [], t.unit⟩

theorem isDigit_digits (t : WholeTerm) : ∀ c ∈ t.digits, c.isDigit = true :=
  List.forall_mem_append.mpr ⟨isDigit_zeros _, isDigit_decimalDigits _⟩

theorem digits_ne_nil (t : WholeTerm) : t.digits ≠ [] :=
  List.append_ne_nil_of_right_ne_nil _ Nat.toDigits_ne_nil

theorem isNumberText_digits (t : WholeTerm) : IsNumberText t.digits := by
  have hpoint := point_notMem t.isDigit_digits
  exact (exists_splitNumber?_iff fun c hc => isNumberChar_of_isDigit (t.isDigit_digits c hc)).mp
    ⟨_, (splitNumber?_of_notMem hpoint).trans (if_neg t.digits_ne_nil)⟩

/-- A number of nanoseconds up to `2^53` is computed as such. -/
theorem nanos_term {t : WholeTerm} (h : t.nanos ≤ 2 ^ 53) :
    t.term.nanos = Binary64.whole t.nanos := by
  obtain ⟨hleast, hmost⟩ := t.unit.nanos_bounds
  have hnumber : t.number ≤ 2 ^ 53 :=
    Nat.le_trans (Nat.le_mul_of_pos_right _ hleast) h
  have hdigits : digitsValue (t.digits ++ []) = t.number := by
    rw [List.append_nil, digits, digitsValue_zeros_append, digitsValue_decimalDigits]
  have hread : Binary64.ofDigits t.digits [] = Binary64.ofNat t.number := by
    unfold Binary64.ofDigits
    rw [hdigits]
    rfl
  unfold DurationTerm.nanos term
  dsimp only
  rw [hread, Binary64.ofNat_whole hnumber, Binary64.ofNat_whole hmost]
  exact Binary64.whole_mul h

theorem durationTerms?_text (terms : List WholeTerm) :
    durationTerms? (terms.flatMap text) = some (terms.map term) := by
  induction terms with
  | nil => rw [List.flatMap_nil, durationTerms?]; rfl
  | cons t terms ih =>
      have hnext : terms.flatMap text = [] ∨ BeginsWithNumber (terms.flatMap text) := by
        cases terms with
        | nil => exact .inl rfl
        | cons t' terms =>
            rw [List.flatMap_cons, text, List.append_assoc]
            exact .inr (t'.isNumberText_digits.begins _)
      have hsplit := (splitNumber?_of_notMem (point_notMem t.isDigit_digits)).trans
        (if_neg t.digits_ne_nil)
      rw [List.flatMap_cons, text, durationTerms?_append t.isNumberText_digits.digits hsplit
        (TimeUnit.ofChars?_of_mem t.spelled) hnext, ih]
      rfl

end WholeTerm

/-- The sum is exact at every term. -/
theorem foldl_whole (terms : List WholeTerm) (start : Nat)
    (h : start + (terms.map WholeTerm.nanos).sum ≤ 2 ^ 53) :
    (terms.map WholeTerm.term).foldl (fun sum t => sum + t.nanos) (Binary64.whole start) =
      Binary64.whole (start + (terms.map WholeTerm.nanos).sum) := by
  induction terms generalizing start with
  | nil => rfl
  | cons t terms ih =>
      rw [List.map_cons, List.sum_cons] at h
      rw [List.map_cons, List.foldl_cons, List.map_cons, List.sum_cons,
        WholeTerm.nanos_term (by omega), Binary64.whole_add (by omega), ih _ (by omega),
        Nat.add_assoc]

namespace Duration

theorem nanos_ofNanos {n : Nat} (h : n ≤ 2 ^ 53) : (ofNanos n).nanos = n := by
  have hfits : n < durationBound := Nat.lt_of_le_of_lt h (by decide)
  rw [ofNanos, ofNanos?, dif_pos hfits]
  rfl

/-- Terms of whole numbers are read as what they add up to. -/
theorem parse?_text {terms : List WholeTerm} (hsome : terms ≠ [])
    (h : (terms.map WholeTerm.nanos).sum ≤ 2 ^ 53) :
    parse? (String.ofList (terms.flatMap WholeTerm.text)) =
      some (ofNanos (terms.map WholeTerm.nanos).sum) := by
  have hsum := foldl_whole terms 0 (by rwa [Nat.zero_add])
  have htotal : totalNanos (terms.map WholeTerm.term) =
      Binary64.whole (terms.map WholeTerm.nanos).sum := by
    rw [Nat.zero_add] at hsum
    rw [← hsum, totalNanos, Binary64.whole, Nat.zero_mul, Binary64.zero]
  have hcap : (terms.map WholeTerm.nanos).sum ≤ nanosCap := Nat.le_trans h (by decide)
  rw [← Binary64.roundClamped_whole hcap, ← htotal]
  refine parse?_of_durationTerms? ?_ ?_ (mt List.map_eq_nil_iff.mp hsome)
  · rw [String.toList_ofList]
    intro c hc
    obtain ⟨t, -, hc⟩ := List.mem_flatMap.mp hc
    rcases List.mem_append.mp hc with hdigit | hletter
    · exact isBlank_of_isNumberChar (isNumberChar_of_isDigit (t.isDigit_digits c hdigit))
    · exact TimeUnit.isBlank_of_mem t.spelled c hletter
  · rw [String.toList_ofList, WholeTerm.durationTerms?_text]

end Duration

/-! ## Documents -/

theorem Json.leadingWord_of_lt {n : Nat} {cs : List Char}
    (h : cs.foldl (fun n c => 10 * n + digitValue c) n < wordBound) :
    leadingWord n cs = (cs.foldl (fun n c => 10 * n + digitValue c) n, 0) := by
  have grows (n : Nat) (cs : List Char) : n ≤ cs.foldl (fun n c => 10 * n + digitValue c) n := by
    induction cs generalizing n with
    | nil => exact Nat.le_refl n
    | cons c cs ih => exact Nat.le_trans (by omega) (ih (10 * n + digitValue c))
  induction cs generalizing n with
  | nil => rfl
  | cons c cs ih =>
      rw [List.foldl_cons] at h
      rw [leadingWord, if_pos (Nat.lt_of_le_of_lt (grows _ cs) h), ih h, List.foldl_cons]

/-- A natural number that fits a word is the value of its literal. -/
theorem Json.Literal.value_ofNat {n : Nat} (h : n < wordBound) :
    (Literal.ofNat n).value = some (.natural n) := by
  have hdigits : (decimalDigits n).foldl (fun n c => 10 * n + digitValue c) 0 = n :=
    digitsValue_decimalDigits n
  have hword : leadingWord 0 (decimalDigits n) = (n, 0) := by
    rw [leadingWord_of_lt (by rwa [hdigits]), hdigits]
  unfold Literal.value Literal.ofNat
  dsimp only
  rw [hword]
  rfl

namespace Duration

/-- A number of seconds in a document that is a whole one as a double. -/
theorem ofNode_number (remaining : Nat) {literal : Literal} {number : Number} {seconds : Nat}
    (hvalue : literal.value = some number) (hnumber : numberOfSeconds number = .ofNat seconds)
    (h : seconds * nanosPerSecond ≤ 2 ^ 53) :
    ofNode remaining (.number literal) = .ok (ofNanos (seconds * nanosPerSecond)) := by
  have hwhole : seconds ≤ 2 ^ 53 := Nat.le_trans (Nat.le_mul_of_pos_right _ (by decide)) h
  have hfits : seconds * nanosPerSecond < durationBound := Nat.lt_of_le_of_lt h (by decide)
  have hround : roundHalfEven (seconds * unitsPerOne * nanosPerSecond) unitsPerOne =
      seconds * nanosPerSecond := by
    rw [Nat.mul_right_comm, roundHalfEven_mul _ unitsPerOne_pos]
  have hread : (Node.number literal).asValue remaining = .ok (.number number) := by
    rw [Node.asValue, hvalue]
  have hseconds : ofSeconds (numberOfSeconds number) =
      .ok (ofNanos (seconds * nanosPerSecond)) := by
    rw [hnumber, Binary64.ofNat_whole hwhole, Binary64.whole, ofSeconds, hround, ofNanos,
      ofNanos?, dif_pos hfits]
    rfl
  unfold ofNode
  rw [hread]
  exact hseconds

/-- A text of terms of whole numbers, which may begin with zeros, in any order and with repetitions,
is read as the sum of the terms in nanoseconds, to the nanosecond, if that is at most `2^53`. And up
to the same bound a whole number of seconds in a document is exactly that duration, whether it is
given as a number, however that is written, or as a text with the unit of seconds. -/
theorem whole_durations_exact :
    (∀ terms : List WholeTerm, terms ≠ [] → (terms.map WholeTerm.nanos).sum ≤ 2 ^ 53 →
      ∃ d, parse? (String.ofList (terms.flatMap WholeTerm.text)) = some d ∧
        d.nanos = (terms.map WholeTerm.nanos).sum) ∧
    ∀ remaining seconds : Nat, seconds * 10 ^ 9 ≤ 2 ^ 53 →
      ∃ d, d.nanos = seconds * 10 ^ 9 ∧
        ofNode remaining (Value.number (.natural seconds)).node = .ok d ∧
        ofNode remaining (Value.text (String.ofList (decimalDigits seconds ++ ['s']))).node =
          .ok d ∧
        ∀ literal number, literal.value = some number →
          numberOfSeconds number = .ofNat seconds → ofNode remaining (.number literal) = .ok d := by
  refine ⟨fun terms hsome h => ?_, fun remaining seconds h => ?_⟩
  · exact ⟨_, parse?_text hsome h, nanos_ofNanos h⟩
  · have hnumber : ∀ literal number, literal.value = some number →
        numberOfSeconds number = .ofNat seconds →
        ofNode remaining (.number literal) = .ok (.ofNanos (seconds * 10 ^ 9)) :=
      fun literal number hvalue hreal => ofNode_number remaining hvalue hreal h
    have hword : seconds < wordBound := by
      have hbound : 2 ^ 53 < wordBound := by decide
      omega
    refine ⟨.ofNanos (seconds * 10 ^ 9), nanos_ofNanos h,
      hnumber _ _ (Literal.value_ofNat hword) rfl, ?_, hnumber⟩
    let term : WholeTerm := ⟨0, seconds, .second, ['s'], by decide⟩
    have hsum : ([term].map WholeTerm.nanos).sum = seconds * 10 ^ 9 := List.sum_singleton
    have htext : [term].flatMap WholeTerm.text = decimalDigits seconds ++ ['s'] :=
      List.flatMap_singleton _ _
    have hread : parse? (String.ofList ([term].flatMap WholeTerm.text)) = _ :=
      parse?_text (List.cons_ne_nil _ _) (by rwa [hsum])
    rw [hsum, htext] at hread
    exact ofNode_text remaining hread

/-- Terms out of order, with leading zeros and a unit that occurs twice. -/
def mixedTerms : List WholeTerm :=
  [⟨1, 2, .hour, ['h'], by decide⟩, ⟨0, 1500, .millisecond, ['m', 's'], by decide⟩,
    ⟨2, 7, .nanosecond, ['n', 's'], by decide⟩, ⟨0, 1, .hour, ['h'], by decide⟩]

/-- The largest whole number of seconds below the bound, written with a point. -/
def pointedSeconds : Literal := ⟨false, ['9', '0', '0', '7', '1', '9', '9'], some ['0'], none⟩

/-- What they add up to, and the number of seconds beside its text. -/
theorem whole_durations_exact_of_mixed :
    (mixedTerms ≠ [] ∧ (mixedTerms.map WholeTerm.nanos).sum ≤ 2 ^ 53 ∧
      ∃ d, parse? "02h1500ms007ns1h" = some d ∧ d.nanos = 10801500000007) ∧
    (9007199 * 10 ^ 9 ≤ 2 ^ 53 ∧ pointedSeconds.value = some (.real (.ofNat 9007199)) ∧
      ∃ d, d.nanos = 9007199 * 10 ^ 9 ∧ ofNode 127 (.number pointedSeconds) = .ok d ∧
        ofNode 127 (Value.text "9007199s").node = .ok d) := by
  have hsum : (mixedTerms.map WholeTerm.nanos).sum = 10801500000007 := by decide
  have hbound : (mixedTerms.map WholeTerm.nanos).sum ≤ 2 ^ 53 := by decide
  have hvalue : pointedSeconds.value = some (.real (.ofNat 9007199)) := by decide +kernel
  refine ⟨⟨by simp [mixedTerms], hbound, ?_⟩, by decide, hvalue, ?_⟩
  · obtain ⟨d, hread, hnanos⟩ := whole_durations_exact.1 mixedTerms (by simp [mixedTerms]) hbound
    exact ⟨d, hread, hnanos.trans hsum⟩
  · obtain ⟨d, hnanos, -, htext, hnumber⟩ := whole_durations_exact.2 127 9007199 (by decide)
    exact ⟨d, hnanos, hnumber _ _ hvalue rfl, htext⟩

end Duration

end Tenure
