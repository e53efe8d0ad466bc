import Mathlib.Data.List.DropRight
import Tenure.Client.Address

/-!
# Addresses that are read again

What reading an address gives is again an address. On a socket reading it once more changes
nothing. On the network that is so exactly if something other than slashes stands behind the
scheme, and no blank in front of the slashes at the end (`parse_settles_iff`): blanks are trimmed
and the empty address is refused before the slashes are dropped, so dropping them may leave the
bare scheme, which is refused when it is read again, or a blank, which is then trimmed
(`parse_scheme`, `not_every_address_settles`).
-/

namespace Tenure

/-! ## Texts without an end of a kind -/

namespace Text

variable {p : Char → Bool} {cs ds : List Char}

/-- A text does not end in a character of the kind. -/
def EndsWithout (p : Char → Bool) (cs : List Char) : Prop :=
  ∀ c, cs.getLast? = some c → p c = false

theorem rdropWhile_eq_self : cs.rdropWhile p = cs ↔ EndsWithout p cs := by
  rw [List.rdropWhile_eq_self_iff]
  constructor
  · intro h c hlast
    obtain ⟨ds, rfl⟩ := List.getLast?_eq_some_iff.mp hlast
    simpa using h (by simp)
  · intro h hne
    simpa using h _ (List.getLast?_eq_some_getLast hne)

theorem endsWithout_rdropWhile (p : Char → Bool) (cs : List Char) :
    EndsWithout p (cs.rdropWhile p) :=
  rdropWhile_eq_self.mp (List.rdropWhile_idempotent p cs)

/-- Dropping stops where a text ends in a character of another kind. -/
theorem rdropWhile_append (hcs : EndsWithout p cs) :
    (cs ++ ds).rdropWhile p = cs ++ ds.rdropWhile p := by
  have hkeep : (cs.reverse.dropWhile p).reverse = cs := rdropWhile_eq_self.mpr hcs
  unfold List.rdropWhile
  rw [List.reverse_append, List.dropWhile_append]
  split
  · rename_i hempty
    rw [List.isEmpty_iff.mp hempty, hkeep]
    simp
  · simp

/-- Trimming drops blanks in front, and then at the end. -/
theorem trimChars_of_head {c : Char} (h : isBlank c = false) (cs : List Char) :
    trimChars (c :: cs) = (c :: cs).rdropWhile isBlank := by
  unfold trimChars
  rw [List.dropWhile_cons_of_neg (by simp [h])]
  rfl

theorem endsWithout_trimChars (cs : List Char) : EndsWithout isBlank (trimChars cs) :=
  endsWithout_rdropWhile isBlank (cs.dropWhile isBlank)

end Text

namespace AgentAddress

open Text

/-! ## Cutting an address at its scheme -/

theorem eq_of_splitOnce? {separator cs before behind : List Char}
    (h : splitOnce? separator cs = some (before, behind)) :
    cs = before ++ separator ++ behind := by
  induction cs generalizing before with
  | nil =>
      unfold splitOnce? at h
      split at h
      · rename_i hempty
        obtain ⟨rfl, rfl⟩ := Prod.mk.inj (Option.some.inj h)
        simpa using hempty
      · cases h
  | cons c rest ih =>
      unfold splitOnce? at h
      split at h
      · rename_i hprefix
        obtain ⟨behind', hbehind⟩ := List.isPrefixOf_iff_prefix.mp hprefix
        obtain ⟨rfl, rfl⟩ := Prod.mk.inj (Option.some.inj h)
        rw [← hbehind]
        simp
      · obtain ⟨⟨before', behind'⟩, hrest, heq⟩ := Option.map_eq_some_iff.mp h
        obtain ⟨rfl, rfl⟩ := Prod.mk.inj heq
        rw [ih hrest]
        rfl

/-- The schemes of an address on the network. -/
def IsNetworkScheme (scheme : List Char) : Prop :=
  scheme = "http".toList ∨ scheme = "https".toList

theorem IsNetworkScheme.splitOnce? {scheme : List Char} (h : IsNetworkScheme scheme)
    (rest : List Char) :
    AgentAddress.splitOnce? schemeMark (scheme ++ schemeMark ++ rest) = some (scheme, rest) := by
  rcases h with rfl | rfl <;> rfl

theorem ofChars_network {scheme : List Char} (h : IsNetworkScheme scheme) {rest : List Char}
    (hne : rest ≠ []) :
    ofChars (scheme ++ schemeMark ++ rest) =
      .ok (.tcp (String.ofList (scheme ++ schemeMark ++ dropSlashes rest))) := by
  unfold ofChars
  rw [h.splitOnce?]
  dsimp only
  rw [if_neg (by simpa using hne)]
  exact if_pos h

theorem ofChars_bare {scheme : List Char} (h : IsNetworkScheme scheme) :
    ofChars (scheme ++ schemeMark) =
      .error (.invalidAddress (String.ofList (scheme ++ schemeMark))) := by
  rcases h with rfl | rfl <;> rfl

/-- What an address says behind its scheme, or all of it. -/
def location (cs : List Char) : List Char :=
  match splitOnce? schemeMark cs with
  | none => cs
  | some (_, rest) => rest

theorem network_of_ofChars {cs : List Char} {u : String} (h : ofChars cs = .ok (.tcp u)) :
    ∃ scheme, IsNetworkScheme scheme ∧
      u = String.ofList (scheme ++ schemeMark ++ dropSlashes (location cs)) := by
  unfold ofChars at h
  unfold location
  cases hsplit : splitOnce? schemeMark cs with
  | none =>
      rw [hsplit] at h
      obtain rfl := AgentAddress.tcp.inj (Except.ok.inj h)
      exact ⟨"http".toList, .inl rfl, rfl⟩
  | some cut =>
      obtain ⟨scheme, rest⟩ := cut
      rw [hsplit] at h
      dsimp only at h
      split_ifs at h with _ hscheme
      · obtain rfl := AgentAddress.tcp.inj (Except.ok.inj h)
        exact ⟨scheme, hscheme, rfl⟩
      · cases h

theorem unix_of_ofChars {cs : List Char} {path : String} (h : ofChars cs = .ok (.unix path)) :
    path ≠ "" ∧ cs = "unix".toList ++ schemeMark ++ path.toList := by
  unfold ofChars at h
  cases hsplit : splitOnce? schemeMark cs with
  | none =>
      rw [hsplit] at h
      cases h
  | some cut =>
      obtain ⟨scheme, rest⟩ := cut
      have hcs := eq_of_splitOnce? hsplit
      have hpath : (String.ofList rest).toList = rest := String.toList_ofList
      rw [hsplit] at h
      dsimp only at h
      split_ifs at h with hempty _ hscheme
      · cases h
      · obtain rfl := AgentAddress.unix.inj (Except.ok.inj h)
        refine ⟨?_, ?_⟩
        · intro hnone
          rw [hnone] at hpath
          exact hempty (List.isEmpty_iff.mpr hpath.symm)
        · rw [hpath, hcs, hscheme]

/-! ## Reading an address -/

/-- The address that a text tells: without the blanks around it, or the default. -/
def told (s : String) : List Char :=
  match trimChars s.toList with
  | [] => defaultAddress.toList
  | cs => cs

theorem parse_eq (s : String) : parse s = ofChars (told s) := by
  unfold parse told
  cases trimChars s.toList with
  | nil => rfl
  | cons c cs => rfl

theorem endsWithout_told (s : String) : EndsWithout isBlank (told s) := by
  unfold told
  split
  · intro c hlast
    obtain rfl := Option.some.inj hlast
    rfl
  · exact endsWithout_trimChars _

/-- An address that needs no trimming is read as it stands. -/
theorem parse_of_trimmed {s : String} (hne : s.toList ≠ [])
    (htrimmed : trimChars s.toList = s.toList) : parse s = ofChars s.toList := by
  unfold parse
  rw [htrimmed]
  cases hcs : s.toList with
  | nil => exact absurd hcs hne
  | cons c cs => rfl

/-- Trimming an address with a scheme leaves the scheme. -/
theorem trimChars_network {scheme : List Char} (h : IsNetworkScheme scheme) (rest : List Char) :
    trimChars (scheme ++ schemeMark ++ rest) =
      scheme ++ schemeMark ++ rest.rdropWhile isBlank := by
  have hends : EndsWithout isBlank (scheme ++ schemeMark) := by
    intro c hlast
    rcases h with rfl | rfl <;> obtain rfl := Option.some.inj hlast <;> rfl
  rw [← rdropWhile_append hends]
  rcases h with rfl | rfl <;> exact trimChars_of_head rfl _

/-- An address with a scheme of the network, read: blanks at its end go first, then there has to
be something left behind the scheme, and then the slashes go. -/
theorem parse_scheme {scheme : List Char} (h : IsNetworkScheme scheme) (rest : List Char) :
    parse (String.ofList (scheme ++ schemeMark ++ rest)) =
      if rest.rdropWhile isBlank = [] then
        .error (.invalidAddress (String.ofList (scheme ++ schemeMark)))
      else .ok (.tcp (String.ofList
        (scheme ++ schemeMark ++ dropSlashes (rest.rdropWhile isBlank)))) := by
  have htold : told (String.ofList (scheme ++ schemeMark ++ rest)) =
      scheme ++ schemeMark ++ rest.rdropWhile isBlank := by
    unfold told
    rw [String.toList_ofList, trimChars_network h]
    rcases h with rfl | rfl <;> rfl
  rw [parse_eq, htold]
  split
  · rename_i hnone
    rw [hnone, List.append_nil]
    exact ofChars_bare h
  · rename_i hsome
    exact ofChars_network h hsome

/-- An address without slashes at its end is read as it stands exactly if there is something behind
its scheme that does not end in a blank. -/
theorem settles_iff {scheme rest : List Char} (h : IsNetworkScheme scheme)
    (hslashes : EndsWithout (· == '/') rest) :
    parse (String.ofList (scheme ++ schemeMark ++ rest)) =
        .ok (.tcp (String.ofList (scheme ++ schemeMark ++ rest))) ↔
      rest ≠ [] ∧ EndsWithout isBlank rest := by
  rw [parse_scheme h]
  constructor
  · intro hparse
    split_ifs at hparse with hnone
    have hsame : dropSlashes (rest.rdropWhile isBlank) = rest :=
      List.append_cancel_left
        (String.ofList_injective (AgentAddress.tcp.inj (Except.ok.inj hparse)))
    -- each of the two droppings leaves a part, and together they leave everything
    have hslash : (dropSlashes (rest.rdropWhile isBlank)).length ≤
        (rest.rdropWhile isBlank).length := (List.rdropWhile_prefix _ _).length_le
    rw [hsame] at hslash
    have hblank : rest.rdropWhile isBlank = rest :=
      (List.rdropWhile_prefix _ _).eq_of_length_le hslash
    refine ⟨?_, rdropWhile_eq_self.mp hblank⟩
    rintro rfl
    exact hnone hblank
  · rintro ⟨hne, hblanks⟩
    have hkeep : dropSlashes rest = rest := rdropWhile_eq_self.mpr hslashes
    rw [rdropWhile_eq_self.mpr hblanks, if_neg hne, hkeep]

/-- **Which addresses are in normal form once they are read.** An address on the network is a
scheme and the location that was told, without slashes at its end. It is read again as it stands
exactly if there is such a location and it does not end in a blank. The path of a socket is never
empty, and behind its scheme it is always read again as it stands. -/
theorem parse_settles_iff (a : String) :
    (∀ u, parse a = .ok (.tcp u) →
      ∃ scheme rest : String, (scheme = "http" ∨ scheme = "https") ∧
        u = scheme ++ "://" ++ rest ∧ rest.toList = dropSlashes (location (told a)) ∧
        rest.toList.getLast? ≠ some '/' ∧
        (parse u = .ok (.tcp u) ↔
          rest ≠ "" ∧ ∀ c, rest.toList.getLast? = some c → isBlank c = false)) ∧
    ∀ path, parse a = .ok (.unix path) →
      path ≠ "" ∧ parse ("unix://" ++ path) = .ok (.unix path) := by
  constructor
  · intro u hparse
    rw [parse_eq] at hparse
    obtain ⟨scheme, hscheme, rfl⟩ := network_of_ofChars hparse
    have hslashes : EndsWithout (· == '/') (dropSlashes (location (told a))) :=
      endsWithout_rdropWhile _ _
    have hsettles := settles_iff hscheme hslashes
    generalize dropSlashes (location (told a)) = rest at hslashes hsettles ⊢
    have hnone : String.ofList rest = "" ↔ rest = [] := by simp
    refine ⟨String.ofList scheme, String.ofList rest, ?_, ?_, String.toList_ofList, ?_, ?_⟩
    · rcases hscheme with rfl | rfl
      · exact .inl String.ofList_toList
      · exact .inr String.ofList_toList
    · rw [String.ofList_append, String.ofList_append]
      rfl
    · rw [String.toList_ofList]
      intro hlast
      cases hslashes _ hlast
    · rw [hsettles, ne_eq, ne_eq, hnone, String.toList_ofList]
      rfl
  · intro path hparse
    rw [parse_eq] at hparse
    obtain ⟨hne, htold⟩ := unix_of_ofChars hparse
    have hwhole : ("unix://" ++ path).toList = told a := by
      rw [String.toList_append, htold]
      rfl
    have htrimmed : trimChars (told a) = told a := by
      have hkeep := rdropWhile_eq_self.mpr (endsWithout_told a)
      rw [htold] at hkeep ⊢
      exact (trimChars_of_head rfl _).trans hkeep
    refine ⟨hne, ?_⟩
    rw [parse_of_trimmed, hwhole, hparse]
    · rw [hwhole, htold]
      simp
    · rw [hwhole, htrimmed]

/-- An address on the network with blanks around it and slashes at its end, and the path of a
socket with both inside. -/
theorem parse_settles_iff_of_cluttered :
    parse "\t https://[::1]:8501// " = .ok (.tcp "https://[::1]:8501") ∧
      parse "https://[::1]:8501" = .ok (.tcp "https://[::1]:8501") ∧
      parse " unix:// /a//\n" = .ok (.unix " /a//") ∧
      parse ("unix://" ++ " /a//") = .ok (.unix " /a//") := by
  have htcp : parse "\t https://[::1]:8501// " = .ok (.tcp "https://[::1]:8501") := by
    decide +kernel
  have hunix : parse " unix:// /a//\n" = .ok (.unix " /a//") := by decide +kernel
  obtain ⟨scheme, rest, -, -, hrest, -, hsettles⟩ := (parse_settles_iff _).1 _ htcp
  have hlocation : dropSlashes (location (told "\t https://[::1]:8501// ")) =
      "[::1]:8501".toList := by decide +kernel
  obtain rfl : rest = "[::1]:8501" := String.toList_inj.mp (hrest.trans hlocation)
  refine ⟨htcp, hsettles.mpr ⟨by decide, fun c hlast => ?_⟩, hunix,
    ((parse_settles_iff _).2 _ hunix).2⟩
  obtain rfl := Option.some.inj hlast
  rfl

/-- Slashes alone leave a bare scheme, which is refused when it is read again, and slashes behind a
blank leave the blank, which is then trimmed. -/
theorem not_every_address_settles :
    parse "http:///" = .ok (.tcp "http://") ∧
      parse "http://" = .error (.invalidAddress "http://") ∧
      parse "/" = .ok (.tcp "http://") ∧
      parse "https://a /" = .ok (.tcp "https://a ") ∧
      parse "https://a " = .ok (.tcp "https://a") ∧
      ¬∀ a u, parse a = .ok (.tcp u) →
        (∃ rest, rest ≠ "" ∧ (u = "http://" ++ rest ∨ u = "https://" ++ rest) ∧
          rest.toList.getLast? ≠ some '/') ∧ parse u = .ok (.tcp u) := by
  have hslashes : parse "http:///" = .ok (.tcp "http://") := by decide +kernel
  have hrefused : parse "http://" = .error (.invalidAddress "http://") := by decide +kernel
  refine ⟨hslashes, hrefused, by decide +kernel, by decide +kernel, by decide +kernel, ?_⟩
  intro hall
  have hagain := (hall _ _ hslashes).2
  rw [hrefused] at hagain
  cases hagain

end AgentAddress

end Tenure
