import Tenure.Proofs.Url.Encoding
import Tenure.Text.Pieces
import Tenure.Url.Path

/-!
# What a path consists of

A path of given segments is a list of texts, each encoded behind a slash, and none of them is
one that an address would read differently (`IsSegment`).

* `Path.exists_ofSegments_eq`: whatever the segments, the path consists of such texts, for tabs
  and line ends have vanished and dots have acted.
* `Path.foldl_extend_eq`: behind other texts, what is left of segments makes up the path, unless
  dots act once tabs and line ends are gone.
* `Path.pieces_ofTexts`: cut at its slashes, a path gives its texts, encoded.
* `Path.ofReference_ofTexts`: an address that carries such a path has that path, so an address
  changes no path of given segments (`Path.ofReference_ofSegments`).
-/

namespace Tenure.Url

/-- A text that a path carries unchanged: an address ignores nothing in it, and it is not one
of the two that act on the path. -/
structure IsSegment (w : List Char) : Prop where
  noneIgnored : ∀ c ∈ w, isIgnored c = false
  notOneDot : w ≠ ['.']
  notTwoDots : w ≠ ['.', '.']

theorem IsSegment.nil : IsSegment [] :=
  ⟨fun _ h => absurd h (by simp), by simp, by simp⟩

/-- Only the characters of a segment and whether it consists of dots have to be looked at. -/
theorem isSegment_iff (w : List Char) :
    IsSegment w ↔ w.all (!isIgnored ·) = true ∧ w ≠ ['.'] ∧ w ≠ ['.', '.'] := by
  constructor
  · rintro ⟨hignored, hone, htwo⟩
    exact ⟨List.all_eq_true.mpr fun c hc => by rw [hignored c hc]; rfl, hone, htwo⟩
  · rintro ⟨hignored, hone, htwo⟩
    exact ⟨fun c hc => by simpa using List.all_eq_true.mp hignored c hc, hone, htwo⟩

instance (w : List Char) : Decidable (IsSegment w) := decidable_of_iff' _ (isSegment_iff w)

/-! ## Encoded segments -/

/-- A segment as a path carries it. -/
abbrev encodeSegment (w : List Char) : List Char := encodeChars keptInSegment w

theorem decodeText?_encodeSegment (w : List Char) :
    decodeText? (encodeSegment w) = some (String.ofList w) :=
  decodeText?_encodeChars rfl w

theorem slash_notMem_encodeSegment (w : List Char) : '/' ∉ encodeSegment w := by
  intro hmem
  refine forall_mem_encodeChars (P := (· ≠ '/')) (by decide) (by decide) ?_ w '/' hmem rfl
  rintro c _ hkept rfl
  exact absurd hkept (by decide)

/-- An encoded segment consists of characters of which the whole path keeps every one. -/
theorem encodeChars_keptInPath_encodeSegment (w : List Char) :
    encodeChars keptInPath (encodeSegment w) = encodeSegment w := by
  refine encodeChars_eq_self (forall_mem_encodeChars ⟨rfl, rfl⟩ (by decide) ?_ w)
  intro c hascii hkept
  exact ⟨hascii, (Bool.and_eq_true_iff.mp hkept).1⟩

namespace Path

/-! ## Dots -/

theorem decodeBytes_of_dropDot? {e rest : List Char} (h : dropDot? e = some rest) :
    decodeBytes e = decodeBytes ('.' :: rest) := by
  unfold dropDot? at h
  split at h
  · rw [Option.some.inj h]
  · rw [Option.some.inj h]
    rfl
  · rw [Option.some.inj h]
    rfl
  · cases h

theorem decodeText?_of_dropDot? {e rest : List Char} (h : dropDot? e = some rest) :
    decodeText? e = decodeText? ('.' :: rest) := by
  unfold decodeText?
  rw [decodeBytes_of_dropDot? h]

/-- Only one dot acts as one dot once it is encoded, and only two dots act as two. -/
theorem dotsOf_encodeSegment {w : List Char} (hone : w ≠ ['.']) (htwo : w ≠ ['.', '.']) :
    dotsOf (encodeSegment w) = .none := by
  have hread {dots : List Char} (h : decodeText? (encodeSegment w) = some (String.ofList dots)) :
      w = dots := by
    rw [decodeText?_encodeSegment] at h
    exact String.ofList_injective (Option.some.inj h)
  unfold dotsOf
  split
  · rfl
  · rename_i hdot
    exact absurd (hread (by rw [decodeText?_of_dropDot? hdot]; rfl)) hone
  · rename_i rest _ hdot
    split
    · rename_i hdots
      refine absurd (hread ?_) htwo
      have hbytes : decodeBytes ('.' :: rest) = decodeBytes ['.', '.'] := by
        rw [decodeBytes_cons (by decide), decodeBytes_of_dropDot? hdots]
        rfl
      rw [decodeText?_of_dropDot? hdot, decodeText?, hbytes]
      rfl
    · rfl

/-! ## Paths as lists of texts -/

/-- The path of texts, each encoded behind a slash. -/
def ofTexts (ws : List (List Char)) : Path := ws.flatMap fun w => '/' :: encodeSegment w

theorem ofTexts_append (vs ws : List (List Char)) : ofTexts (vs ++ ws) = ofTexts vs ++ ofTexts ws :=
  List.flatMap_append

theorem ofTexts_concat (ws : List (List Char)) (w : List Char) :
    ofTexts (ws ++ [w]) = ofTexts ws ++ '/' :: encodeSegment w := by
  rw [ofTexts_append, ofTexts, ofTexts, List.flatMap_singleton]

theorem ofTexts_slash (ws : List (List Char)) : ofTexts ws ++ ['/'] = ofTexts (ws ++ [[]]) :=
  (ofTexts_concat ws []).symm

/-- A path that is tidy: it consists of texts that an address reads as they are. -/
def Tidy (p : Path) : Prop := ∃ ws, ws ≠ [] ∧ (∀ w ∈ ws, IsSegment w) ∧ p = ofTexts ws

theorem tidy_rootPath : Tidy rootPath := by
  refine ⟨[[]], by simp, ?_, rfl⟩
  intro w hw
  obtain rfl := List.mem_singleton.mp hw
  exact .nil

/-- One more text behind a tidy list of texts. -/
theorem tidy_concat {ws : List (List Char)} {w : List Char} (hws : ∀ w ∈ ws, IsSegment w)
    (hw : IsSegment w) : Tidy (ofTexts (ws ++ [w])) := by
  refine ⟨ws ++ [w], by simp, fun v hv => ?_, rfl⟩
  rcases List.mem_append.mp hv with hv | hv
  · exact hws v hv
  · rwa [List.mem_singleton.mp hv]

/-! ## Climbing -/

theorem endsInSlash_concat (p : Path) : endsInSlash (p ++ ['/']) = true := by
  unfold endsInSlash
  rw [List.getLast?_concat]
  rfl

theorem dropSegment_append {p e : Path} (h : '/' ∉ e) :
    dropSegment (p ++ '/' :: e) = p ++ ['/'] := by
  unfold dropSegment
  rw [List.reverse_append, List.reverse_cons, List.append_assoc]
  rw [List.dropWhile_append_of_pos]
  · simp
  · intro c hc
    refine bne_iff_ne.mpr ?_
    rintro rfl
    exact h (List.mem_reverse.mp hc)

/-- Climbing from a path that ends in a slash leaves a path that does: the last text is gone, or
nothing is. -/
theorem exists_climb_eq (ws : List (List Char)) :
    ∃ vs, vs <+: ws ∧ climb (ofTexts ws ++ ['/']) = ofTexts vs ++ ['/'] := by
  unfold climb
  rw [endsInSlash_concat, Bool.true_and]
  split
  · rename_i hclimb
    rcases List.eq_nil_or_concat ws with rfl | ⟨vs, w, hws⟩
    · exact absurd hclimb (by decide)
    · obtain rfl : ws = vs ++ [w] := hws.trans List.concat_eq_append
      refine ⟨vs, List.prefix_append _ _, ?_⟩
      rw [List.dropLast_concat, ofTexts_concat]
      exact dropSegment_append (slash_notMem_encodeSegment w)
  · exact ⟨ws, List.prefix_rfl, dropSegment_append (by simp)⟩

/-! ## Building -/

/-- A segment that is no dots is put behind the path. -/
theorem place_of_isSegment (ws : List (List Char)) {w : List Char} (hw : IsSegment w)
    (slash : Bool) :
    place (ofTexts ws ++ ['/']) (encodeSegment w) slash =
      ofTexts (ws ++ [w]) ++ (if slash then ['/'] else []) := by
  unfold place
  rw [dotsOf_encodeSegment hw.notOneDot hw.notTwoDots, ofTexts_concat]
  simp

/-- Whatever is put behind a tidy path leaves a tidy path, when nothing in it is ignored. -/
theorem tidy_place {ws : List (List Char)} (hws : ∀ w ∈ ws, IsSegment w) {w : List Char}
    (hw : ∀ c ∈ w, isIgnored c = false) :
    Tidy (place (ofTexts ws ++ ['/']) (encodeSegment w) false) := by
  by_cases hone : w = ['.']
  · -- one dot adds nothing to the slash
    subst hone
    have hplace : place (ofTexts ws ++ ['/']) (encodeSegment ['.']) false = ofTexts ws ++ ['/'] :=
      if_pos (endsInSlash_concat _)
    rw [hplace, ofTexts_slash]
    exact tidy_concat hws .nil
  by_cases htwo : w = ['.', '.']
  · -- two dots climb
    subst htwo
    obtain ⟨vs, hvs, hclimb⟩ := exists_climb_eq ws
    have hplace : place (ofTexts ws ++ ['/']) (encodeSegment ['.', '.']) false =
        ofTexts vs ++ ['/'] := hclimb
    rw [hplace, ofTexts_slash]
    exact tidy_concat (fun v hv => hws v (hvs.subset hv)) .nil
  have hsegment : IsSegment w := ⟨hw, hone, htwo⟩
  rw [place_of_isSegment ws hsegment]
  simpa using tidy_concat hws hsegment

/-- Appending a segment of any text keeps a path tidy. -/
theorem Tidy.extend {p : Path} (h : Tidy p) (segment : List Char) : Tidy (p.extend segment) := by
  obtain ⟨ws, hne, hws, rfl⟩ := h
  unfold Path.extend
  split
  · exact ⟨ws, hne, hws, rfl⟩
  have hkept : ∀ c ∈ segment.filter (!isIgnored ·), isIgnored c = false :=
    fun c hc => by simpa using (List.mem_filter.mp hc).2
  split
  · exact tidy_place hws hkept
  · -- only the root is that short, and its slash is already there
    rename_i hshort
    have hroot : ofTexts ws = ofTexts [] ++ ['/'] := by
      obtain ⟨w, rest, rfl⟩ := List.exists_cons_of_ne_nil hne
      have hcons : ofTexts (w :: rest) = '/' :: (encodeSegment w ++ ofTexts rest) := rfl
      rw [hcons, List.length_cons] at hshort
      have hnil : encodeSegment w ++ ofTexts rest = [] := List.length_eq_zero_iff.mp (by omega)
      rw [hcons, hnil]
      rfl
    rw [hroot]
    exact tidy_place (fun _ h => absurd h (by simp)) hkept

/-- The path of segments consists of texts that an address reads as they are. -/
theorem exists_ofSegments_eq (segments : List (List Char)) :
    ∃ ws, ws ≠ [] ∧ (∀ w ∈ ws, IsSegment w) ∧ ofSegments segments = ofTexts ws := by
  have htidy (p : Path) (hp : Tidy p) : Tidy (segments.foldl Path.extend p) := by
    induction segments generalizing p with
    | nil => exact hp
    | cons s rest ih => exact ih _ (hp.extend s)
  exact htidy rootPath tidy_rootPath

/-- What is left of segments: those given as exactly one or two dots are passed over, and what an
address ignores has vanished from the others. -/
def left (segments : List (List Char)) : List (List Char) :=
  (segments.filter fun w => ¬(w = ['.'] ∨ w = ['.', '.'])).map (·.filter (!isIgnored ·))

theorem left_cons_of_dots {w : List Char} (h : w = ['.'] ∨ w = ['.', '.'])
    (rest : List (List Char)) : left (w :: rest) = left rest := by
  have hpassed : decide (¬(w = ['.'] ∨ w = ['.', '.'])) = false := decide_eq_false (not_not.mpr h)
  unfold left
  rw [List.filter_cons, hpassed]
  rfl

theorem left_cons {w : List Char} (h : ¬(w = ['.'] ∨ w = ['.', '.'])) (rest : List (List Char)) :
    left (w :: rest) = w.filter (!isIgnored ·) :: left rest := by
  have hpassed : decide (¬(w = ['.'] ∨ w = ['.', '.'])) = true := decide_eq_true h
  unfold left
  rw [List.filter_cons, hpassed]
  rfl

theorem left_of_forall {segments : List (List Char)} (h : ∀ w ∈ segments, IsSegment w) :
    left segments = segments := by
  have hplain : ∀ w ∈ segments, decide (¬(w = ['.'] ∨ w = ['.', '.'])) = true := fun w hw =>
    decide_eq_true (not_or.mpr ⟨(h w hw).notOneDot, (h w hw).notTwoDots⟩)
  have hkept : ∀ w ∈ segments, w.filter (!isIgnored ·) = w := fun w hw =>
    List.filter_eq_self.mpr fun c hc => by rw [(h w hw).noneIgnored c hc]; rfl
  unfold left
  rw [List.filter_eq_self.mpr hplain, List.map_congr_left hkept, List.map_id']

/-- Behind texts that are more than the root, what is left of segments makes up the path, if
nothing of it acts on the path. -/
theorem foldl_extend_eq (ws : List (List Char)) (hlong : 1 < (ofTexts ws).length)
    {segments : List (List Char)} (h : ∀ w ∈ left segments, IsSegment w) :
    segments.foldl Path.extend (ofTexts ws) = ofTexts (ws ++ left segments) := by
  induction segments generalizing ws with
  | nil => rw [left, List.filter_nil, List.map_nil, List.append_nil]; rfl
  | cons w rest ih =>
      rw [List.foldl_cons]
      by_cases hdots : w = ['.'] ∨ w = ['.', '.']
      · have hextend : (ofTexts ws).extend w = ofTexts ws := if_pos hdots
        rw [left_cons_of_dots hdots] at h ⊢
        rw [hextend, ih ws hlong h]
      · have hgrown : 1 < (ofTexts (ws ++ [w.filter (!isIgnored ·)])).length := by
          rw [ofTexts_append, List.length_append]
          omega
        rw [left_cons hdots] at h ⊢
        have hextend : (ofTexts ws).extend w = ofTexts (ws ++ [w.filter (!isIgnored ·)]) := by
          unfold Path.extend
          rw [if_neg hdots, if_pos hlong]
          simpa using place_of_isSegment ws (h _ List.mem_cons_self) false
        rw [hextend, ih _ hgrown fun v hv => h v (List.mem_cons_of_mem _ hv), List.append_assoc]
        rfl

/-! ## Reading -/

/-- The texts of a path, encoded, are what stands between its slashes. -/
theorem pieces_ofTexts (w : List Char) (ws : List (List Char)) :
    Text.pieces '/' (encodeSegment w ++ ofTexts ws) = (w :: ws).map encodeSegment := by
  induction ws generalizing w with
  | nil =>
      rw [ofTexts, List.flatMap_nil, List.append_nil]
      exact Text.pieces_of_notMem (slash_notMem_encodeSegment w)
  | cons v ws ih =>
      show Text.pieces '/' (encodeSegment w ++ '/' :: (encodeSegment v ++ ofTexts ws)) = _
      rw [Text.pieces_append (slash_notMem_encodeSegment w), ih]
      rfl

/-- What is read up to the next separator belongs to the segment. -/
theorem readSegments_append (p : Path) (acc e rest : List Char)
    (h : ∀ c ∈ e, isSeparator c = false) :
    readSegments p acc (e ++ rest) = readSegments p (e.reverse ++ acc) rest := by
  induction e generalizing acc with
  | nil => rfl
  | cons c e ih =>
      rw [List.cons_append, readSegments, if_neg (by rw [h c List.mem_cons_self]; simp),
        ih _ fun d hd => h d (List.mem_cons_of_mem _ hd), List.reverse_cons, List.append_assoc]
      rfl

theorem isSeparator_encodeSegment (w : List Char) :
    ∀ c ∈ encodeSegment w, isSeparator c = false := by
  refine forall_mem_encodeChars (P := (isSeparator · = false)) rfl (by decide) ?_ w
  intro c _ hkept
  simp only [keptInSegment, Bool.and_eq_true, Bool.not_eq_true', Bool.or_eq_false_iff] at hkept
  simp only [isSeparator, hkept, Bool.or_self]

/-- The last segment of an address. -/
theorem readSegments_encodeSegment (p : Path) (w : List Char) :
    readSegments p [] (encodeSegment w) = place p (encodeSegment w) false := by
  have hread := readSegments_append p [] (encodeSegment w) [] (isSeparator_encodeSegment w)
  rw [List.append_nil, List.append_nil] at hread
  rw [hread]
  show place p (encodeChars keptInPath (encodeSegment w).reverse.reverse) false = _
  rw [List.reverse_reverse, encodeChars_keptInPath_encodeSegment]

/-- A segment that a slash ends. -/
theorem readSegments_encodeSegment_slash (p : Path) (w rest : List Char) :
    readSegments p [] (encodeSegment w ++ '/' :: rest) =
      readSegments (place p (encodeSegment w) true) [] rest := by
  rw [readSegments_append p [] _ _ (isSeparator_encodeSegment w), List.append_nil]
  show readSegments (place p (encodeChars keptInPath (encodeSegment w).reverse.reverse) true) [] rest
    = _
  rw [List.reverse_reverse, encodeChars_keptInPath_encodeSegment]

/-- Reading on behind texts gives these and the ones read. -/
theorem readSegments_ofTexts (us : List (List Char)) {w : List Char} {ws : List (List Char)}
    (h : ∀ v ∈ w :: ws, IsSegment v) :
    readSegments (ofTexts us ++ ['/']) [] (encodeSegment w ++ ofTexts ws) =
      ofTexts (us ++ w :: ws) := by
  have hplace := place_of_isSegment us (h w List.mem_cons_self)
  induction ws generalizing us w with
  | nil =>
      have hnil : encodeSegment w ++ ofTexts [] = encodeSegment w := List.append_nil _
      rw [hnil, readSegments_encodeSegment, hplace]
      exact List.append_nil _
  | cons v ws ih =>
      have hrest : ∀ u ∈ v :: ws, IsSegment u := fun u hu => h u (List.mem_cons_of_mem _ hu)
      have hread := ih (us ++ [w]) hrest
        (place_of_isSegment _ (hrest v List.mem_cons_self))
      rw [List.append_assoc] at hread
      refine (readSegments_encodeSegment_slash _ w (encodeSegment v ++ ofTexts ws)).trans ?_
      rw [hplace]
      exact hread

/-- An address whose path consists of texts it reads as they are has that path. -/
theorem ofReference_ofTexts {ws : List (List Char)} (hne : ws ≠ []) (h : ∀ w ∈ ws, IsSegment w) :
    ofReference (ofTexts ws) = ofTexts ws := by
  obtain ⟨w, rest, rfl⟩ := List.exists_cons_of_ne_nil hne
  exact readSegments_ofTexts [] h

/-- An address changes no path of segments. -/
theorem ofReference_ofSegments (segments : List (List Char)) :
    ofReference (ofSegments segments) = ofSegments segments := by
  obtain ⟨ws, hne, hws, heq⟩ := exists_ofSegments_eq segments
  rw [heq, ofReference_ofTexts hne hws]

end Path

end Tenure.Url
