import Tenure.Client.Query
import Tenure.Proofs.Url.Targets

/-!
# Forms are read back

Reading a form gives back the pairs that it was written from, all but those with neither name nor
value, which leave no trace (`decodePairs?_encodePairs`): names and values hold no separator, so
the form is cut where it was joined (`pieces_encodePairs`), a pair is cut at its first `=`
(`decodePair?_encodePair`), and a text is decoded after its `+` signs have become spaces
(`decode?_encode`). A form is a text in which every percent sign begins an escape (`IsEscaped`).

A query keeps the pairs that it was built from, whatever the order in which they were added
(`Query.Built`), so this holds of its text too (`Query.reads_back`).
-/

namespace Tenure.Url

/-! ## Escapes -/

/-- Whether a character is a hexadecimal digit. -/
def isHexDigit (c : Char) : Bool := (hexValue? c).isSome

/-- A text in which every percent sign stands before two hexadecimal digits. -/
inductive IsEscaped : List Char → Prop
  | nil : IsEscaped []
  | plain {c cs} : c ≠ '%' → IsEscaped cs → IsEscaped (c :: cs)
  | escape {a b cs} : isHexDigit a = true → isHexDigit b = true → IsEscaped cs →
      IsEscaped ('%' :: a :: b :: cs)

namespace IsEscaped

variable {cs ds : List Char} {kept : Char → Bool}

theorem append (hcs : IsEscaped cs) (hds : IsEscaped ds) : IsEscaped (cs ++ ds) := by
  induction hcs with
  | nil => exact hds
  | plain hc _ ih => exact .plain hc ih
  | escape ha hb _ ih => exact .escape ha hb ih

theorem of_notMem (h : '%' ∉ cs) : IsEscaped cs := by
  induction cs with
  | nil => exact .nil
  | cons c cs ih =>
      obtain ⟨hc, hcs⟩ := not_or.mp (mt List.mem_cons.mpr h)
      exact .plain (Ne.symm hc) (ih hcs)

theorem flatMap {α : Type} {f : α → List Char} (h : ∀ a, IsEscaped (f a)) (xs : List α) :
    IsEscaped (xs.flatMap f) := by
  induction xs with
  | nil => exact .nil
  | cons a xs ih =>
      rw [List.flatMap_cons]
      exact (h a).append ih

/-- Behind a percent sign, wherever it stands, come two hexadecimal digits. -/
theorem digits {before behind : List Char} (h : IsEscaped (before ++ '%' :: behind)) :
    ∃ a b rest, behind = a :: b :: rest ∧ isHexDigit a = true ∧ isHexDigit b = true := by
  generalize hcs : before ++ '%' :: behind = cs at h
  induction h generalizing before with
  | nil => simp at hcs
  | plain hc _ ih =>
      cases before with
      | nil => exact absurd (List.cons.inj hcs).1.symm hc
      | cons d before => exact ih (List.cons.inj hcs).2
  | escape ha hb _ ih =>
      -- neither digit is a percent sign
      match before, hcs with
      | [], hcs => exact ⟨_, _, _, (List.cons.inj hcs).2, ha, hb⟩
      | [_], hcs =>
          obtain ⟨rfl, -⟩ := List.cons.inj (List.cons.inj hcs).2
          cases ha
      | [_, _], hcs =>
          obtain ⟨rfl, -⟩ := List.cons.inj (List.cons.inj (List.cons.inj hcs).2).2
          cases hb
      | _ :: _ :: _ :: before, hcs =>
          exact ih (List.cons.inj (List.cons.inj (List.cons.inj hcs).2).2).2

theorem percentByte (b : UInt8) : IsEscaped (Url.percentByte b) := by
  have hb : b.toNat < 256 := UInt8.toNat_lt b
  refine .escape ?_ ?_ .nil
  · rw [isHexDigit, hexValue?_hexDigit (by omega)]
    rfl
  · rw [isHexDigit, hexValue?_hexDigit (by omega)]
    rfl

theorem encodeChar (hpercent : kept '%' = false) (c : Char) :
    IsEscaped (Url.encodeChar kept c) := by
  unfold Url.encodeChar
  split
  · rename_i hplain
    refine .plain ?_ .nil
    rintro rfl
    rw [hpercent, Bool.and_false] at hplain
    cases hplain
  · exact flatMap percentByte _

end IsEscaped

namespace Form

/-! ## What a form consists of -/

theorem kept_percent : kept '%' = false := by decide

theorem isEscaped_encode (s : String) : IsEscaped (encode s) := by
  refine IsEscaped.flatMap (fun c => ?_) s.toList
  unfold encodeChar
  split
  · exact .of_notMem (by decide)
  · exact .encodeChar kept_percent c

theorem isEscaped_encodePair (p : String × String) : IsEscaped (encodePair p) := by
  refine (isEscaped_encode p.1).append ?_
  split
  · exact .nil
  · exact .plain (by decide) (isEscaped_encode p.2)

theorem isEscaped_encodePairs (ps : List (String × String)) : IsEscaped (encodePairs ps) := by
  induction ps with
  | nil => exact .nil
  | cons p ps ih =>
      cases ps with
      | nil => exact isEscaped_encodePair p
      | cons q ps => exact (isEscaped_encodePair p).append (.plain (by decide) ih)

/-- The marks of a form. -/
def marks : List Char := ['*', '-', '.', '_', '+', '%', '=', '&']

/-- A form consists of letters, digits and marks. -/
theorem isAlphanum_or_mem_marks (ps : List (String × String)) :
    ∀ c ∈ encodePairs ps, c.isAlphanum = true ∨ c ∈ marks := by
  refine forall_mem_encodePairs (by decide) (by decide) ?_ ps
  intro c hkept
  simp only [kept, Bool.or_eq_true, beq_iff_eq] at hkept
  rcases hkept with (((halnum | rfl) | rfl) | rfl) | rfl
  · exact .inl halnum
  all_goals exact .inr (by decide)

theorem separator_notMem_encode (s : String) : '=' ∉ encode s ∧ '&' ∉ encode s := by
  have hplain : ∀ c ∈ encode s, c ≠ '=' ∧ c ≠ '&' := by
    refine forall_mem_encode (by decide) (by decide) (by decide) ?_ s
    rintro c hkept
    constructor <;> rintro rfl <;> cases hkept
  exact ⟨fun h => (hplain _ h).1 rfl, fun h => (hplain _ h).2 rfl⟩

/-! ## Reading names and values -/

/-- The reading of a plus sign. -/
def spaced (c : Char) : Char := if c = '+' then ' ' else c

/-- What an encoded text keeps once its plus signs are spaces. -/
def keptOrSpace (c : Char) : Bool := kept c || c == ' '

theorem map_spaced_encodeChar (c : Char) :
    (encodeChar c).map spaced = Url.encodeChar keptOrSpace c := by
  unfold encodeChar
  split
  · rename_i hspace
    rw [hspace]
    decide
  · rename_i hother
    have hsame : Url.encodeChar keptOrSpace c = Url.encodeChar kept c := by
      simp [Url.encodeChar, keptOrSpace, hother]
    have hplain : ∀ d ∈ Url.encodeChar kept c, spaced d = d := by
      refine forall_mem_encodeChar (by decide) (by decide) ?_ c
      intro d _ hkept
      refine if_neg ?_
      rintro rfl
      cases hkept
    rw [hsame, List.map_congr_left hplain, List.map_id']

theorem decode?_encode (s : String) : decode? (encode s) = some s := by
  have hspaces : (encode s).map spaced = encodeChars keptOrSpace s.toList := by
    unfold encode encodeChars
    rw [List.map_flatMap]
    simp only [map_spaced_encodeChar]
  show decodeText? ((encode s).map spaced) = some s
  rw [hspaces, decodeText?_encodeChars (by decide), String.ofList_toList]

/-! ## Reading pairs -/

theorem decodePair?_encodePair (p : String × String) : decodePair? (encodePair p) = some p := by
  obtain ⟨name, value⟩ := p
  have hname : ∀ c ∈ encode name, (c != '=') = true := by
    intro c hc
    refine bne_iff_ne.mpr ?_
    rintro rfl
    exact (separator_notMem_encode name).1 hc
  by_cases hvalue : value = ""
  · have hpair : encodePair (name, value) = encode name := by
      rw [encodePair, if_pos hvalue, List.append_nil]
    have hall : (encode name).takeWhile (· != '=') = encode name :=
      List.takeWhile_eq_self_iff.mpr hname
    have hnone : (encode name).dropWhile (· != '=') = [] := List.dropWhile_eq_nil_iff.mpr hname
    unfold decodePair?
    rw [hpair, hall, hnone, decode?_encode, hvalue]
    rfl
  · have hpair : encodePair (name, value) = encode name ++ '=' :: encode value := by
      rw [encodePair, if_neg hvalue]
    unfold decodePair?
    rw [hpair, Text.takeWhile_append_cons _ hname rfl, Text.dropWhile_append_cons _ hname rfl,
      decode?_encode, List.drop_one, List.tail_cons, decode?_encode]
    rfl

/-- Only a pair with neither name nor value leaves no trace. -/
theorem encodePair_eq_nil_iff {p : String × String} : encodePair p = [] ↔ p = ("", "") := by
  refine ⟨fun h => ?_, fun h => h ▸ rfl⟩
  have hread := decodePair?_encodePair p
  rw [h] at hread
  exact (Option.some.inj hread).symm

theorem and_notMem_encodePair (p : String × String) : '&' ∉ encodePair p := by
  unfold encodePair
  split
  · simp [(separator_notMem_encode p.1).2]
  · simp [(separator_notMem_encode p.1).2, (separator_notMem_encode p.2).2]

/-- A form is cut where it was joined. -/
theorem pieces_encodePairs {ps : List (String × String)} (hne : ps ≠ []) :
    Text.pieces '&' (encodePairs ps) = ps.map encodePair := by
  induction ps with
  | nil => exact absurd rfl hne
  | cons p ps ih =>
      cases ps with
      | nil => exact Text.pieces_of_notMem (and_notMem_encodePair p)
      | cons q ps =>
          rw [encodePairs, Text.pieces_append (and_notMem_encodePair p), ih (by simp),
            List.map_cons (l := q :: ps)]
          simp

theorem mapM_decodePair? (ps : List (String × String)) :
    (ps.map encodePair).mapM decodePair? = some ps := by
  have hread : decodePair? ∘ encodePair = fun p => pure (id p) := funext decodePair?_encodePair
  rw [List.mapM_map, hread, List.mapM_pure, List.map_id]
  rfl

/-- Reading a form gives the pairs that it was written from, in their order, except those with
neither name nor value. -/
theorem decodePairs?_encodePairs (ps : List (String × String)) :
    decodePairs? (encodePairs ps) = some (ps.filter (· ≠ ("", ""))) := by
  by_cases hne : ps = []
  · subst hne
    rfl
  · have hnonempty : (fun cs : List Char => !cs.isEmpty) ∘ encodePair =
        fun p => decide (p ≠ ("", "")) := by
      funext p
      rw [Bool.eq_iff_iff]
      simp [← encodePair_eq_nil_iff]
    unfold decodePairs?
    rw [pieces_encodePairs hne, List.filter_map, hnonempty, mapM_decodePair?]

end Form

end Tenure.Url

namespace Tenure.Query

open Url

/-! ## Queries -/

/-- The pairs that a query was built from, by adding one after another, several at once, or all
from the start. -/
inductive Built : List (String × String) → Query → Prop
  | empty : Built [] .empty
  | collect (ps : List (String × String)) : Built ps (.ofList ps)
  | push {ps q} (name value : String) : Built ps q → Built (ps ++ [(name, value)]) (q.push name value)
  | extend {ps q} (added : List (String × String)) :
      Built ps q → Built (ps ++ added) (q.append added)

theorem Built.params {ps : List (String × String)} {q : Query} (h : Built ps q) :
    q.params = ps := by
  induction h with
  | empty => rfl
  | collect ps => rfl
  | push name value _ ih => rw [params_push, ih]
  | extend added _ ih => rw [params_append, ih]

theorem Built.read {ps : List (String × String)} {q : Query} (h : Built ps q) :
    Form.decodePairs? q.render.toList = some (ps.filter (· ≠ ("", ""))) := by
  rw [render, String.toList_ofList, h.params, Form.decodePairs?_encodePairs]

/-- **A query loses nothing.** However it was built, reading its text as a form gives back the
pairs that it was built from, in their order, unless one of them has neither name nor value; two
queries without such pairs that have the same text are equal. The text has one piece for each pair
and consists of letters, digits and marks of a form, each percent sign before two hexadecimal
digits, so no name or value begins another parameter, a fragment or a line. -/
theorem reads_back {ps : List (String × String)} {q : Query} (h : Built ps q) :
    (("", "") ∉ ps →
      Form.decodePairs? q.render.toList = some ps ∧
      ∀ ps' q', Built ps' q' → ("", "") ∉ ps' → q'.render = q.render → q' = q) ∧
    (ps ≠ [] → (Text.pieces '&' q.render.toList).length = ps.length) ∧
    (∀ c ∈ q.render.toList, c.isAlphanum = true ∨ c ∈ Form.marks) ∧
    (∀ before behind, q.render.toList = before ++ '%' :: behind →
      ∃ a b rest, behind = a :: b :: rest ∧ isHexDigit a = true ∧ isHexDigit b = true) ∧
    '#' ∉ q.render.toList ∧ '\r' ∉ q.render.toList ∧ '\n' ∉ q.render.toList := by
  have htext : q.render.toList = Form.encodePairs ps := by
    rw [render, String.toList_ofList, h.params]
  have hwhole {ps : List (String × String)} (hps : ("", "") ∉ ps) :
      ps.filter (· ≠ ("", "")) = ps := by
    refine List.filter_eq_self.mpr fun p hp => decide_eq_true ?_
    rintro rfl
    exact hps hp
  have hchars := Form.isAlphanum_or_mem_marks ps
  refine ⟨fun hps => ⟨?_, ?_⟩, ?_, ?_, ?_, ?_⟩
  · rw [h.read, hwhole hps]
  · intro ps' q' h' hps' hsame
    have hread := h'.read
    rw [hsame, h.read, hwhole hps, hwhole hps', ← h.params, ← h'.params] at hread
    exact (congrArg Query.mk (Option.some.inj hread)).symm
  · intro hne
    rw [htext, Form.pieces_encodePairs hne, List.length_map]
  · rwa [htext]
  · intro before behind hsplit
    have hescaped := Form.isEscaped_encodePairs ps
    rw [← htext, hsplit] at hescaped
    exact hescaped.digits
  · rw [htext]
    exact ⟨fun h => absurd (hchars _ h) (by decide), fun h => absurd (hchars _ h) (by decide),
      fun h => absurd (hchars _ h) (by decide)⟩

/-- A query with a switch given twice, a value without a name, and marks inside texts. -/
def flagged : Query :=
  ((Query.ofList [("stale", "")]).push "" "a&b=c").append [("ä b", "50%+#"), ("stale", "")]

/-- Its text, which is read back. -/
theorem reads_back_of_flagged :
    Built flagged.params flagged ∧ ("", "") ∉ flagged.params ∧
      flagged.render = "stale&=a%26b%3Dc&%C3%A4+b=50%25%2B%23&stale" ∧
      Form.decodePairs? flagged.render.toList =
        some [("stale", ""), ("", "a&b=c"), ("ä b", "50%+#"), ("stale", "")] ∧
      (Text.pieces '&' flagged.render.toList).length = 4 := by
  have hbuilt : Built flagged.params flagged :=
    .extend _ (.push _ _ (.collect [("stale", "")]))
  have hwhole : ("", "") ∉ flagged.params := by decide
  obtain ⟨hread, hpieces, -⟩ := reads_back hbuilt
  exact ⟨hbuilt, hwhole, by decide +kernel, (hread hwhole).1, hpieces (by decide)⟩

end Tenure.Query
