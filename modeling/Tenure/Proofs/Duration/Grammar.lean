import Mathlib.Data.List.TakeWhile
import Tenure.Duration.Wire
import Tenure.Text.Pieces

/-!
# The texts that write a duration

A duration text is read by two rules in turn: the characters of a number as far as they go, then
everything up to the next one. Its grammar says nothing of how far anything goes, only that terms
stand one behind the other. Both accept the same texts, because no character of a number occurs in
the spelling of a unit.

* `exists_splitNumber?_iff` and `TimeUnit.exists_ofChars?_iff` do this for the two halves of a term;
* `durationTerms?_append` reads one term in front of a text that goes on with a number or ends, and
  `IsTermsText.exists_durationTerms?` and `isTermsText_of_durationTerms?` go through a whole text,
  along its grammar and along its reading;
* `Duration.reads_exactly_durations` adds the blanks at the ends, the bare zero and the report of a
  text that is no duration.
-/

namespace Tenure

open Numeric Json

/-! ## Numbers -/

section Number

variable {cs whole fraction : List Char}

theorem isNumberChar_of_isDigit {c : Char} (h : c.isDigit = true) : isNumberChar c = true := by
  rw [isNumberChar, h, Bool.true_or]

theorem isDigit_of_isNumberChar {c : Char} (h : isNumberChar c = true) (hpoint : c ≠ '.') :
    c.isDigit = true := by
  rcases Bool.or_eq_true_iff.mp h with hdigit | hother
  · exact hdigit
  · exact absurd (beq_iff_eq.mp hother) hpoint

theorem point_notMem (h : ∀ c ∈ cs, c.isDigit = true) : '.' ∉ cs :=
  fun hmem => absurd (h '.' hmem) (by decide)

theorem ne_point (h : '.' ∉ cs) : ∀ c ∈ cs, (c != '.') = true :=
  fun _ hc => bne_iff_ne.mpr fun heq => h (heq ▸ hc)

/-- A number without a point. -/
theorem splitNumber?_of_notMem (h : '.' ∉ cs) :
    splitNumber? cs = if cs = [] then none else some (cs, []) := by
  unfold splitNumber?
  rw [List.takeWhile_eq_self_iff.mpr (ne_point h), List.dropWhile_eq_nil_iff.mpr (ne_point h)]
  cases cs <;> rfl

/-- A number with a point behind its first part. -/
theorem splitNumber?_append (h : '.' ∉ whole) :
    splitNumber? (whole ++ '.' :: fraction) =
      if '.' ∈ fraction ∨ whole = [] ∧ fraction = [] then none else some (whole, fraction) := by
  have hrest : ('.' :: fraction).drop 1 = fraction := rfl
  unfold splitNumber?
  rw [Text.takeWhile_append_cons _ (ne_point h) rfl, Text.dropWhile_append_cons _ (ne_point h) rfl]
  dsimp only
  rw [hrest]
  simp only [Bool.or_eq_true, Bool.and_eq_true, List.contains_iff_mem, List.isEmpty_iff]

theorem any_isDigit_iff (h : ∀ c ∈ cs, isNumberChar c = true) (hpoint : '.' ∉ cs) :
    cs.any Char.isDigit = true ↔ cs ≠ [] := by
  cases cs with
  | nil => simp
  | cons c cs =>
      have hdigit : c.isDigit = true :=
        isDigit_of_isNumberChar (h c List.mem_cons_self) fun heq =>
          hpoint (heq ▸ List.mem_cons_self)
      rw [List.any_cons, hdigit]
      simp

/-- A text of number characters is split exactly if it is a number. -/
theorem exists_splitNumber?_iff (h : ∀ c ∈ cs, isNumberChar c = true) :
    (∃ parts, splitNumber? cs = some parts) ↔ IsNumberText cs := by
  have hall : cs.all isNumberChar = true := List.all_eq_true.mpr h
  -- the first point parts the text, so a second one can only stand behind it
  by_cases hmem : '.' ∈ cs
  · obtain ⟨whole, fraction, rfl, hwhole⟩ := List.eq_append_cons_of_mem hmem
    obtain ⟨hbefore, hbehind⟩ := List.forall_mem_append.mp h
    have hsingle : (whole ++ '.' :: fraction).count '.' ≤ 1 ↔ '.' ∉ fraction := by
      rw [List.count_append, List.count_eq_zero_of_not_mem hwhole, List.count_cons_self,
        ← List.count_eq_zero]
      omega
    have hany : (whole ++ '.' :: fraction).any Char.isDigit = true ↔
        whole.any Char.isDigit = true ∨ fraction.any Char.isDigit = true := by
      rw [List.any_append, List.any_cons, Bool.or_eq_true]
      exact Iff.rfl
    rw [splitNumber?_append hwhole]
    constructor
    · rintro ⟨parts, hsplit⟩
      split at hsplit
      · cases hsplit
      rename_i hkept
      obtain ⟨hfraction, hsome⟩ := not_or.mp hkept
      refine ⟨hall, hsingle.mpr hfraction, hany.mpr ?_⟩
      rw [any_isDigit_iff hbefore hwhole,
        any_isDigit_iff (List.forall_mem_cons.mp hbehind).2 hfraction]
      exact not_and_or.mp hsome
    · rintro ⟨-, hcount, hdigit⟩
      have hfraction := hsingle.mp hcount
      rw [hany, any_isDigit_iff hbefore hwhole,
        any_isDigit_iff (List.forall_mem_cons.mp hbehind).2 hfraction] at hdigit
      exact ⟨_, if_neg (not_or.mpr ⟨hfraction, not_and_or.mpr hdigit⟩)⟩
  · have hnone : cs.count '.' ≤ 1 := by
      rw [List.count_eq_zero_of_not_mem hmem]
      exact Nat.zero_le 1
    rw [splitNumber?_of_notMem hmem]
    constructor
    · rintro ⟨parts, hsplit⟩
      split at hsplit
      · cases hsplit
      rename_i hsome
      exact ⟨hall, hnone, (any_isDigit_iff h hmem).mpr hsome⟩
    · rintro ⟨-, -, hdigit⟩
      exact ⟨_, if_neg ((any_isDigit_iff h hmem).mp hdigit)⟩

end Number

/-! ## Units -/

theorem TimeUnit.mem_all (u : TimeUnit) : u ∈ all := by
  cases u <;> simp [all]

theorem TimeUnit.exists_ofChars?_iff {cs : List Char} :
    (∃ u, ofChars? cs = some u) ↔ IsUnitText cs := by
  unfold ofChars? IsUnitText
  rw [← Option.isSome_iff_exists, List.find?_isSome]
  constructor
  · rintro ⟨u, -, hu⟩
    exact ⟨u, List.contains_iff_mem.mp hu⟩
  · rintro ⟨u, hu⟩
    exact ⟨u, u.mem_all, List.contains_iff_mem.mpr hu⟩

/-- A unit has letters, and no number character stands in it. -/
theorem IsUnitText.letters {cs : List Char} (h : IsUnitText cs) :
    cs ≠ [] ∧ ∀ c ∈ cs, isNumberChar c = false := by
  obtain ⟨u, hu⟩ := h
  have hall : u.spellings.all (fun cs => !cs.isEmpty && cs.all (!isNumberChar ·)) = true := by
    cases u <;> rfl
  obtain ⟨hsome, hletters⟩ := Bool.and_eq_true_iff.mp (List.all_eq_true.mp hall cs hu)
  rw [Bool.not_eq_true', List.isEmpty_eq_false_iff] at hsome
  exact ⟨hsome, fun c hc => by simpa using List.all_eq_true.mp hletters c hc⟩

/-! ## Terms -/

theorem IsNumberText.digits {cs : List Char} (h : IsNumberText cs) :
    cs ≠ [] ∧ ∀ c ∈ cs, isNumberChar c = true := by
  obtain ⟨hall, -, hany⟩ := h
  obtain ⟨c, hc, -⟩ := List.any_eq_true.mp hany
  exact ⟨List.ne_nil_of_mem hc, List.all_eq_true.mp hall⟩

/-- A text that begins with a number. -/
def BeginsWithNumber (cs : List Char) : Prop := ∃ c rest, cs = c :: rest ∧ isNumberChar c = true

theorem span_letters {rest : List Char} (h : rest = [] ∨ BeginsWithNumber rest) :
    rest.takeWhile (!isNumberChar ·) = [] ∧ rest.dropWhile (!isNumberChar ·) = rest := by
  rcases h with rfl | ⟨c, rest, rfl, hc⟩
  · exact ⟨rfl, rfl⟩
  · have hdigit : ¬ (!isNumberChar c) = true := by rw [hc]; simp
    exact ⟨List.takeWhile_cons_of_neg hdigit, List.dropWhile_cons_of_neg hdigit⟩

/-- A number and a unit are the first term of a text that goes on with a number or not at all. -/
theorem durationTerms?_append {number unit rest whole fraction : List Char} {u : TimeUnit}
    (hnumber : number ≠ [] ∧ ∀ c ∈ number, isNumberChar c = true)
    (hsplit : splitNumber? number = some (whole, fraction))
    (hspelling : TimeUnit.ofChars? unit = some u)
    (hnext : rest = [] ∨ BeginsWithNumber rest) :
    durationTerms? (number ++ unit ++ rest) =
      (durationTerms? rest).map (⟨whole, fraction, u⟩ :: ·) := by
  obtain ⟨hmarked, hunit⟩ := (TimeUnit.exists_ofChars?_iff.mp ⟨u, hspelling⟩).letters
  obtain ⟨c, digits, rfl⟩ := List.exists_cons_of_ne_nil hnumber.1
  obtain ⟨d, spelling, rfl⟩ := List.exists_cons_of_ne_nil hmarked
  obtain ⟨hc, hdigits⟩ := List.forall_mem_cons.mp hnumber.2
  have hd : isNumberChar d = false := hunit d List.mem_cons_self
  have hletters : ∀ e ∈ d :: spelling, (!isNumberChar e) = true :=
    fun e he => by rw [hunit e he]; rfl
  have htaken := Text.takeWhile_append_cons (spelling ++ rest) hdigits hd
  have hleft := Text.dropWhile_append_cons (spelling ++ rest) hdigits hd
  -- the number ends where the unit begins, and the unit where the next number does
  obtain ⟨hnone, hstays⟩ := span_letters hnext
  rw [List.append_assoc, List.cons_append, List.cons_append, durationTerms?, if_pos hc]
  dsimp only
  rw [htaken, hleft, ← List.cons_append, List.takeWhile_append_of_pos hletters,
    List.dropWhile_append_of_pos hletters, hnone, hstays, List.append_nil, hsplit, hspelling]

theorem durationTerms?_single {number unit whole fraction : List Char} {u : TimeUnit}
    (hnumber : number ≠ [] ∧ ∀ c ∈ number, isNumberChar c = true)
    (hsplit : splitNumber? number = some (whole, fraction))
    (hspelling : TimeUnit.ofChars? unit = some u) :
    durationTerms? (number ++ unit) = some [⟨whole, fraction, u⟩] := by
  have hdone : durationTerms? [] = some [] := by rw [durationTerms?]
  rw [← List.append_nil (number ++ unit), durationTerms?_append hnumber hsplit hspelling (.inl rfl),
    hdone]
  rfl

theorem IsNumberText.begins {number : List Char} (h : IsNumberText number) (rest : List Char) :
    BeginsWithNumber (number ++ rest) := by
  obtain ⟨hsome, hdigits⟩ := h.digits
  obtain ⟨c, digits, rfl⟩ := List.exists_cons_of_ne_nil hsome
  exact ⟨c, digits ++ rest, rfl, hdigits c List.mem_cons_self⟩

theorem IsTermsText.begins {cs : List Char} (h : IsTermsText cs) : BeginsWithNumber cs := by
  cases h with
  | single hnumber => exact hnumber.begins _
  | more hnumber =>
      rw [List.append_assoc]
      exact hnumber.begins _

/-- A text that is put together from terms is taken apart. -/
theorem IsTermsText.exists_durationTerms? {cs : List Char} (h : IsTermsText cs) :
    ∃ terms, durationTerms? cs = some terms := by
  induction h with
  | @single number unit hnumber hunit =>
      obtain ⟨⟨whole, fraction⟩, hsplit⟩ := (exists_splitNumber?_iff hnumber.digits.2).mpr hnumber
      obtain ⟨u, hu⟩ := TimeUnit.exists_ofChars?_iff.mpr hunit
      exact ⟨[⟨whole, fraction, u⟩], durationTerms?_single hnumber.digits hsplit hu⟩
  | @more number unit rest hnumber hunit hrest ih =>
      obtain ⟨⟨whole, fraction⟩, hsplit⟩ := (exists_splitNumber?_iff hnumber.digits.2).mpr hnumber
      obtain ⟨u, hu⟩ := TimeUnit.exists_ofChars?_iff.mpr hunit
      obtain ⟨terms, hterms⟩ := ih
      refine ⟨⟨whole, fraction, u⟩ :: terms, ?_⟩
      rw [durationTerms?_append hnumber.digits hsplit hu (.inr hrest.begins), hterms]
      rfl

/-- A text that is taken apart is put together from terms. -/
theorem isTermsText_of_durationTerms? {cs : List Char} {terms : List DurationTerm}
    (h : durationTerms? cs = some terms) : cs = [] ∨ IsTermsText cs := by
  fun_induction durationTerms? cs generalizing terms with
  | case1 => exact .inl rfl
  | case2 c rest hc number behind whole fraction unit hu hsplit =>
      rename_i ih
      obtain ⟨later, hlater, -⟩ := Option.map_eq_some_iff.mp h
      have hdigits : ∀ d ∈ number, isNumberChar d = true :=
        List.forall_mem_cons.mpr ⟨hc, fun d hd => List.mem_takeWhile_imp hd⟩
      have hnumber : IsNumberText number := (exists_splitNumber?_iff hdigits).mp ⟨_, hsplit⟩
      have hunit := TimeUnit.exists_ofChars?_iff.mp ⟨unit, hu⟩
      have hcut : c :: rest =
          number ++ behind.takeWhile (!isNumberChar ·) ++ behind.dropWhile (!isNumberChar ·) := by
        rw [List.append_assoc, List.takeWhile_append_dropWhile, List.cons_append,
          List.takeWhile_append_dropWhile]
      rw [hcut]
      rcases ih hlater with hnone | hterms
      · rw [hnone, List.append_nil]
        exact .inr (.single hnumber hunit)
      · exact .inr (.more hnumber hunit hterms)
  | case3 => cases h
  | case4 => cases h

/-- A text is taken apart exactly if it is put together from terms. -/
theorem exists_durationTerms?_iff {cs : List Char} (hsome : cs ≠ []) :
    (∃ terms, durationTerms? cs = some terms) ↔ IsTermsText cs := by
  constructor
  · rintro ⟨terms, h⟩
    exact (isTermsText_of_durationTerms? h).resolve_left hsome
  · exact IsTermsText.exists_durationTerms?

namespace Duration

theorem exists_parse?_iff {s : String} : (∃ d, parse? s = some d) ↔ IsDurationText s := by
  unfold parse? IsDurationText
  split
  · rename_i hnone
    rw [hnone]
    constructor
    · rintro ⟨d, h⟩
      cases h
    · rintro (hzero | hterms)
      · cases hzero
      · obtain ⟨c, rest, hcons, -⟩ := hterms.begins
        cases hcons
  · rename_i hzero
    exact ⟨fun _ => .inl hzero, fun _ => ⟨zero, rfl⟩⟩
  · rename_i hsome hbare
    constructor
    · rintro ⟨d, h⟩
      obtain ⟨terms, hterms, -⟩ := Option.map_eq_some_iff.mp h
      exact .inr ((exists_durationTerms?_iff hsome).mp ⟨terms, hterms⟩)
    · rintro (hzero | hterms)
      · exact absurd hzero hbare
      · obtain ⟨terms, h⟩ := hterms.exists_durationTerms?
        rw [h]
        exact ⟨_, rfl⟩

/-- A blank text is no duration. -/
theorem parse?_of_isBlankText {s : String} (h : Text.isBlankText s = true) :
    parse? s = none := by
  have hnone : Text.trimChars s.toList = [] := by
    unfold Text.trimChars
    rw [List.dropWhile_eq_nil_iff.mpr (List.all_eq_true.mp h)]
    rfl
  unfold parse?
  rw [hnone]

/-- A text that writes a duration is one in a document. -/
theorem ofNode_text (remaining : Nat) {s : String} {d : Duration}
    (h : parse? s = some d) : ofNode remaining (Value.text s).node = .ok d := by
  have hblank : Text.isBlankText s = false := by
    refine Bool.eq_false_iff.mpr fun hblank => ?_
    rw [parse?_of_isBlankText hblank] at h
    cases h
  have hvalue : (Value.text s).node.asValue remaining = .ok (.text s) := by
    unfold Value.node
    rw [Node.asValue]
  unfold ofNode
  rw [hvalue]
  show (if Text.isBlankText s then pure zero else ofText s) = Except.ok d
  rw [hblank, ofText, h]
  rfl

/-- A text is read as a duration exactly if, blanks at its ends apart, it is a bare zero or a
sequence of terms, each a number directly followed by a unit. Every other text is reported as it was
given, blanks included, and no text keeps the reading from coming to one of these two ends. -/
theorem reads_exactly_durations (s : String) :
    ((∃ d, ofText s = .ok d) ↔ IsDurationText s) ∧
      (ofText s = unfit (.invalidDuration s) ↔ ¬ IsDurationText s) := by
  rw [← exists_parse?_iff]
  unfold ofText
  cases parse? s with
  | none => simp [unfit]
  | some d => simp [unfit]

end Duration

end Tenure
