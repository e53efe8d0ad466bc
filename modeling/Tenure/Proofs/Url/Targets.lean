import Mathlib.Data.List.TakeWhile
import Tenure.Proofs.Url.Segments
import Tenure.Text.Blank
import Tenure.Url.Form
import Tenure.Url.Resolve

/-!
# Addresses that keep their target

Reading an address changes nothing in a target whose path consists of encoded segments and whose
query is a form (`target?_of_plain`): no character of either is ignored, ends one of the two
early, or is encoded once more.
-/

namespace Tenure.Url

/-! ## Characters of ASCII -/

theorem ofNat_toNat_of_isAscii {c : Char} (h : isAscii c = true) :
    ∃ n < 128, Char.ofNat n = c :=
  ⟨c.toNat, of_decide_eq_true h, Char.ofNat_toNat c⟩

theorem isAscii_of_isAlphanum {c : Char} (h : c.isAlphanum = true) : isAscii c = true := by
  have hbelow {d : Char} (hd : d.toNat < 128) (hc : c.val ≤ d.val) : isAscii c = true :=
    decide_eq_true (Nat.lt_of_le_of_lt (UInt32.le_iff_toNat_le.mp hc) hd)
  rcases Bool.or_eq_true_iff.mp h with halpha | hdigit
  · rcases Bool.or_eq_true_iff.mp halpha with hupper | hlower
    · exact hbelow (d := 'Z') (by decide) (of_decide_eq_true hupper).2
    · exact hbelow (d := 'z') (by decide)
        (of_decide_eq_true (Bool.and_eq_true_iff.mp hlower).2)
  · exact hbelow (d := '9') (by decide) (of_decide_eq_true (Bool.and_eq_true_iff.mp hdigit).2)

/-- A property of characters that follows from another one for all of ASCII. -/
theorem of_ascii {p q : Char → Bool} (h : ∀ n < 128, p (Char.ofNat n) = true →
    q (Char.ofNat n) = true) {c : Char} (hc : isAscii c = true) (hp : p c = true) : q c = true := by
  obtain ⟨n, hn, rfl⟩ := ofNat_toNat_of_isAscii hc
  exact h n hn hp

/-! ## Characters of a form -/

/-- What is true of the plus sign, of whatever an escape consists of and of what is kept is true
of every character of a name or a value. -/
theorem Form.forall_mem_encode {P : Char → Prop} (hplus : P '+') (hpercent : P '%')
    (hdigit : ∀ n < 16, P (hexDigit n)) (hkept : ∀ c, kept c = true → P c) (s : String) :
    ∀ c ∈ encode s, P c := by
  intro c hc
  obtain ⟨d, _, hd⟩ := List.mem_flatMap.mp hc
  unfold encodeChar at hd
  split at hd
  · rwa [List.mem_singleton.mp hd]
  · exact forall_mem_encodeChar hpercent hdigit (fun c _ => hkept c) d c hd

/-- What is true of the marks of a form and of what it keeps is true of every character of it. -/
theorem Form.forall_mem_encodePairs {P : Char → Prop}
    (hmarks : P '%' ∧ P '+' ∧ P '=' ∧ P '&') (hdigit : ∀ n < 16, P (hexDigit n))
    (hkept : ∀ c, kept c = true → P c) (ps : List (String × String)) :
    ∀ c ∈ encodePairs ps, P c := by
  obtain ⟨hpercent, hplus, hequals, hand⟩ := hmarks
  have htext := forall_mem_encode hplus hpercent hdigit hkept
  have hpair (p : String × String) : ∀ c ∈ encodePair p, P c := by
    intro c hc
    rcases List.mem_append.mp hc with hc | hc
    · exact htext _ c hc
    split at hc
    · cases hc
    rcases List.mem_cons.mp hc with rfl | hc
    · exact hequals
    · exact htext _ c hc
  intro c hc
  induction ps with
  | nil => cases hc
  | cons p rest ih =>
      cases rest with
      | nil => exact hpair p c hc
      | cons q rest =>
          rcases List.mem_append.mp hc with hc | hc
          · exact hpair p c hc
          rcases List.mem_cons.mp hc with rfl | hc
          · exact hand
          · exact ih hc

/-- A form consists of characters that a query keeps. -/
theorem Form.kept_encodePairs (ps : List (String × String)) :
    ∀ c ∈ encodePairs ps, isAscii c = true ∧ keptInQuery c = true := by
  refine forall_mem_encodePairs (by decide) (by decide) ?_ ps
  intro c hkept
  have hascii : isAscii c = true := by
    unfold kept at hkept
    simp only [Bool.or_eq_true, beq_iff_eq] at hkept
    rcases hkept with (((halnum | rfl) | rfl) | rfl) | rfl
    · exact isAscii_of_isAlphanum halnum
    all_goals rfl
  exact ⟨hascii, of_ascii (p := kept) (by decide) hascii hkept⟩

/-! ## Reading an address -/

theorem isEdge_of_isIgnored {c : Char} (h : isIgnored c = true) : isEdge c = true := by
  unfold isIgnored at h
  simp only [Bool.or_eq_true, beq_iff_eq] at h
  rcases h with (rfl | rfl) | rfl <;> rfl

theorem forall_of_all {p : Char → Bool} {cs : List Char} (h : cs.all (!p ·) = true) :
    ∀ c ∈ cs, p c = false :=
  fun c hc => by simpa using List.all_eq_true.mp h c hc

/-- Nothing is ignored in an address without controls and blanks. -/
theorem tidy_eq_self {cs : List Char} (h : ∀ c ∈ cs, isEdge c = false) : tidy cs = cs := by
  unfold tidy
  rw [Text.dropWhile_eq_self h, Text.reverse_dropWhile_reverse h]
  refine List.filter_eq_self.mpr fun c hc => ?_
  have hedge := h c hc
  cases hignored : isIgnored c with
  | false => rfl
  | true => rw [isEdge_of_isIgnored hignored] at hedge; cases hedge

theorem plain_of_isHostChar {c : Char} (h : isHostChar c = true) :
    isAscii c = true ∧ isEdge c = false ∧ endsAuthority c = false := by
  have hascii : isAscii c = true := by
    unfold isHostChar at h
    simp only [Bool.or_eq_true, beq_iff_eq] at h
    rcases h with ((halnum | rfl) | rfl) | rfl
    · exact isAscii_of_isAlphanum halnum
    all_goals rfl
  have hplain : (!isEdge c && !endsAuthority c) = true :=
    of_ascii (p := isHostChar) (q := fun c => !isEdge c && !endsAuthority c) (by decide) hascii h
  exact ⟨hascii, by simpa using hplain⟩

/-- A plain authority is not empty, and its characters are of ASCII and neither are ignored nor
end it. -/
theorem plain_of_isPlainAuthority {authority : List Char} (h : isPlainAuthority authority = true) :
    authority ≠ [] ∧
      ∀ c ∈ authority, isAscii c = true ∧ isEdge c = false ∧ endsAuthority c = false := by
  simp only [isPlainAuthority, Bool.and_eq_true, Bool.not_eq_true', isPort] at h
  obtain ⟨⟨hne, hhost⟩, hport, _⟩ := h
  constructor
  · rintro rfl
    cases hne
  have hcolon : ∀ c ∈ authority, isHostChar c = true ∨ c = ':' := by
    intro c hc
    rw [← List.takeWhile_append_dropWhile (p := (· != ':')) (l := authority)] at hc
    rcases List.mem_append.mp hc with hc | hc
    · exact .inl (List.all_eq_true.mp hhost c hc)
    cases hdrop : authority.dropWhile (· != ':') with
    | nil => rw [hdrop] at hc; cases hc
    | cons d rest =>
        rw [hdrop] at hc hport
        rcases List.mem_cons.mp hc with rfl | hc
        · have hhead := List.head?_dropWhile_not (· != ':') authority
          rw [hdrop] at hhead
          exact .inr (by simpa using hhead)
        · have hdigit : c.isDigit = true := List.all_eq_true.mp hport c hc
          refine .inl ?_
          unfold isHostChar Char.isAlphanum
          rw [hdigit, Bool.or_true]
          rfl
  intro c hc
  rcases hcolon c hc with hhost | rfl
  · exact plain_of_isHostChar hhost
  · exact ⟨rfl, rfl, rfl⟩

/-- The characters of a path of segments neither are ignored nor end it. -/
theorem Path.plain_ofSegments (segments : List (List Char)) :
    ∀ c ∈ Path.ofSegments segments, isEdge c = false ∧ c ≠ '?' ∧ c ≠ '#' := by
  obtain ⟨ws, _, _, heq⟩ := exists_ofSegments_eq segments
  rw [heq]
  intro c hc
  obtain ⟨w, _, hc⟩ := List.mem_flatMap.mp hc
  rcases List.mem_cons.mp hc with rfl | hc
  · decide
  refine forall_mem_encodeChars (P := fun c => isEdge c = false ∧ c ≠ '?' ∧ c ≠ '#')
    (by decide) (by decide) ?_ w c hc
  intro c hascii hkept
  have hplain : (!isEdge c && (c != '?' && c != '#')) = true :=
    of_ascii (p := keptInSegment) (q := fun c => !isEdge c && (c != '?' && c != '#')) (by decide)
      hascii hkept
  simpa using hplain

theorem Path.exists_slash_ofSegments (segments : List (List Char)) :
    ∃ path, Path.ofSegments segments = '/' :: path := by
  obtain ⟨ws, hne, _, heq⟩ := exists_ofSegments_eq segments
  obtain ⟨w, rest, rfl⟩ := List.exists_cons_of_ne_nil hne
  exact ⟨_, heq⟩

/-- The characters of a form neither are ignored nor end a query. -/
theorem Form.plain_encodePairs (ps : List (String × String)) :
    ∀ c ∈ encodePairs ps, isEdge c = false ∧ c ≠ '#' := by
  intro c hc
  obtain ⟨hascii, hkept⟩ := Form.kept_encodePairs ps c hc
  have hplain : (!isEdge c && c != '#') = true :=
    of_ascii (p := keptInQuery) (q := fun c => !isEdge c && c != '#') (by decide) hascii hkept
  simpa using hplain

/-- The target of a web address with a plain authority, a path of segments and a form for its
query: path and query as they stand. -/
theorem target?_of_plain {authority : List Char} (hplain : isPlainAuthority authority = true)
    (segments : List (List Char)) (ps : List (String × String)) :
    target? ("http://".toList ++ (authority ++
        (Path.ofSegments segments ++ '?' :: Form.encodePairs ps))) =
      some (Path.ofSegments segments ++ '?' :: Form.encodePairs ps) := by
  obtain ⟨hne, hauthority⟩ := plain_of_isPlainAuthority hplain
  have hpath := Path.plain_ofSegments segments
  have hquery := Form.plain_encodePairs ps
  have hread := Path.ofReference_ofSegments segments
  obtain ⟨path, hslash⟩ := Path.exists_slash_ofSegments segments
  generalize Path.ofSegments segments = whole at *
  have hform : encodeChars keptInQuery (Form.encodePairs ps) = Form.encodePairs ps :=
    encodeChars_eq_self (Form.kept_encodePairs ps)
  generalize Form.encodePairs ps = query at *
  -- nothing is ignored
  have htidy : tidy ("http://".toList ++ (authority ++ (whole ++ '?' :: query))) =
      "http://".toList ++ (authority ++ (whole ++ '?' :: query)) := by
    refine tidy_eq_self ?_
    simp only [List.forall_mem_append, List.forall_mem_cons]
    exact ⟨forall_of_all rfl, fun c hc => (hauthority c hc).2.1, fun c hc => (hpath c hc).1, rfl,
      fun c hc => (hquery c hc).1⟩
  -- the authority begins behind the slashes and ends at the path
  have hslashes : ("//".toList ++ (authority ++ (whole ++ '?' :: query))).dropWhile
      Path.isSeparator = authority ++ (whole ++ '?' :: query) := by
    obtain ⟨c, rest, rfl⟩ := List.exists_cons_of_ne_nil hne
    refine Text.dropWhile_append_cons _ (List.all_eq_true.mp rfl) ?_
    have hends := (hauthority c List.mem_cons_self).2.2
    simp only [endsAuthority, Bool.or_eq_false_iff] at hends
    exact hends.1.1
  have hinside : ∀ c ∈ authority, (!endsAuthority c) = true :=
    fun c hc => by rw [(hauthority c hc).2.2]; rfl
  have htaken :
      (authority ++ (whole ++ '?' :: query)).takeWhile (!endsAuthority ·) = authority := by
    rw [hslash]
    exact Text.takeWhile_append_cons _ hinside rfl
  have hleft : (authority ++ (whole ++ '?' :: query)).dropWhile (!endsAuthority ·) =
      whole ++ '?' :: query := by
    rw [hslash]
    exact Text.dropWhile_append_cons _ hinside rfl
  -- there is no fragment, and the path ends at the query
  have hfragment : (whole ++ '?' :: query).takeWhile (· != '#') = whole ++ '?' :: query := by
    refine List.takeWhile_eq_self_iff.mpr ?_
    simp only [List.forall_mem_append, List.forall_mem_cons, bne_iff_ne]
    exact ⟨fun c hc => (hpath c hc).2.2, by decide, fun c hc => (hquery c hc).2⟩
  have hbefore : ∀ c ∈ whole, (c != '?') = true := fun c hc => bne_iff_ne.mpr (hpath c hc).2.1
  have hfront : (whole ++ '?' :: query).takeWhile (· != '?') = whole :=
    Text.takeWhile_append_cons _ hbefore rfl
  have hback : (whole ++ '?' :: query).dropWhile (· != '?') = '?' :: query :=
    Text.dropWhile_append_cons _ hbefore rfl
  have hscheme : dropScheme? ("http://".toList ++ (authority ++ (whole ++ '?' :: query))) =
      some ("//".toList ++ (authority ++ (whole ++ '?' :: query))) := rfl
  unfold target?
  rw [htidy, hscheme]
  show (if isPlainAuthority _ then _ else none) = _
  rw [hslashes, htaken, if_pos hplain, hleft, hfragment, hfront, hread, hback]
  show some (whole ++ '?' :: encodeChars keptInQuery query) = _
  rw [hform]

end Tenure.Url
