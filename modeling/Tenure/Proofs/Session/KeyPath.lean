import Tenure.Proofs.Session.LockRequests

/-!
# Keys and their paths

The path of a key can be read back: behind the root of the keys it is cut at its slashes and each
piece is decoded (`readKeyPath?`). What comes out is what an address leaves of the segments of the
key (`readKeyPath?_keyPath`), and that is all of them exactly when the key is plain, which means
that an address ignores no character of it and none of its segments is one or two dots
(`keyPath_faithful_iff`). Two plain keys share a path only when they differ in leading slashes
alone, and every lock operation on a plain key stays under the root.

Other keys are not addressed faithfully: a segment of dots is lost, tabs and line ends are lost,
and dots around a tab lead out of the root (`not_every_key_faithful`).
-/

namespace Tenure

open Json (Bytes)

/-- Where the agent keeps its keys. -/
def keyRoot : List Char := "/v1/kv/".toList

/-- The segments that a path under the root of the keys names. -/
def readKeyPath? (path : String) : Option (List String) := do
  let rest ← Url.dropWord? keyRoot path.toList
  (Text.pieces '/' rest).mapM Url.decodeText?

/-- A key whose segments are all read as they are. -/
def IsPlainKey (key : String) : Prop := ∀ w ∈ keySegments key, Url.IsSegment w

instance (key : String) : Decidable (IsPlainKey key) :=
  inferInstanceAs (Decidable (∀ w ∈ keySegments key, Url.IsSegment w))

/-! ## Reading a path -/

theorem mapM_decodeText? (ws : List (List Char)) :
    (ws.map Url.encodeSegment).mapM Url.decodeText? = some (ws.map String.ofList) := by
  induction ws with
  | nil => rfl
  | cons w ws ih =>
      rw [List.map_cons, List.mapM_cons, Url.decodeText?_encodeSegment, ih]
      rfl

theorem dropWord?_append (word rest : List Char) :
    Url.dropWord? word (word ++ rest) = some rest := by
  have hword : word.isPrefixOf (word ++ rest) = true :=
    List.isPrefixOf_iff_prefix.mpr (List.prefix_append word rest)
  unfold Url.dropWord?
  rw [if_pos hword, List.drop_left]

/-- The path of texts under the root names these. -/
theorem readKeyPath?_ofTexts {ws : List (List Char)} (hne : ws ≠ []) :
    readKeyPath? (String.ofList (Url.Path.ofTexts (["v1".toList, "kv".toList] ++ ws))) =
      some (ws.map String.ofList) := by
  obtain ⟨w, ws, rfl⟩ := List.exists_cons_of_ne_nil hne
  have hpath : Url.Path.ofTexts (["v1".toList, "kv".toList] ++ w :: ws) =
      keyRoot ++ (Url.encodeSegment w ++ Url.Path.ofTexts ws) := rfl
  unfold readKeyPath?
  rw [String.toList_ofList, hpath, dropWord?_append]
  show (Text.pieces '/' _).mapM Url.decodeText? = _
  rw [Url.Path.pieces_ofTexts, mapM_decodeText?]

/-- What a tidy path names under the root are segments that an address reads as they are. -/
theorem forall_isSegment_of_readKeyPath? {ws : List (List Char)} (hne : ws ≠ [])
    (hws : ∀ w ∈ ws, Url.IsSegment w) {names : List String}
    (h : readKeyPath? (String.ofList (Url.Path.ofTexts ws)) = some names) :
    ∃ vs : List (List Char), (∀ v ∈ vs, Url.IsSegment v) ∧ names = vs.map String.ofList := by
  unfold readKeyPath? Url.dropWord? at h
  rw [String.toList_ofList] at h
  split at h
  · rename_i hroot
    obtain ⟨rest, hrest⟩ := List.isPrefixOf_iff_prefix.mp hroot
    have hpieces : [] :: ws.map Url.encodeSegment =
        [] :: "v1".toList :: "kv".toList :: Text.pieces '/' rest := by
      obtain ⟨w, vs, rfl⟩ := List.exists_cons_of_ne_nil hne
      have hcut : Text.pieces '/' (Url.Path.ofTexts (w :: vs)) =
          [] :: (w :: vs).map Url.encodeSegment := by
        rw [← Url.Path.pieces_ofTexts]
        rfl
      rw [← hcut, ← hrest]
      rfl
    have htail : Text.pieces '/' rest = (ws.drop 2).map Url.encodeSegment := by
      have hdropped := congrArg (List.drop 3) hpieces
      rw [List.map_drop]
      exact hdropped.symm
    refine ⟨ws.drop 2, fun v hv => hws v (List.mem_of_mem_drop hv), ?_⟩
    have hnames : (Text.pieces '/' rest).mapM Url.decodeText? = some names := by
      rw [← hrest, List.drop_left] at h
      exact h
    rw [htail, mapM_decodeText?] at hnames
    exact (Option.some.inj hnames).symm
  · cases h

/-! ## The path of a key -/

/-- The path of a key consists of what an address leaves of its segments, unless dots act once
tabs and line ends are gone. -/
theorem keyPath_eq {key : String}
    (h : ∀ w ∈ Url.Path.left (keySegments key), Url.IsSegment w) :
    keyPath key = String.ofList
      (Url.Path.ofTexts (["v1".toList, "kv".toList] ++ Url.Path.left (keySegments key))) := by
  have hroot : ["v1".toList, "kv".toList].foldl Url.Path.extend Url.rootPath =
    Url.Path.ofTexts ["v1".toList, "kv".toList] := by decide
  have hpath := Url.Path.foldl_extend_eq ["v1".toList, "kv".toList] (by decide) h
  unfold keyPath Url.Path.ofSegments
  rw [List.foldl_append, hroot, hpath]

theorem readKeyPath?_keyPath (key : String)
    (h : ∀ w ∈ Url.Path.left (keySegments key), Url.IsSegment w)
    (hne : Url.Path.left (keySegments key) ≠ []) :
    readKeyPath? (keyPath key) = some ((Url.Path.left (keySegments key)).map String.ofList) := by
  rw [keyPath_eq h, readKeyPath?_ofTexts hne]

theorem IsPlainKey.left {key : String} (h : IsPlainKey key) :
    Url.Path.left (keySegments key) = keySegments key :=
  Url.Path.left_of_forall h

theorem readKeyPath?_of_isPlainKey {key : String} (h : IsPlainKey key) :
    readKeyPath? (keyPath key) = some ((keySegments key).map String.ofList) := by
  have hread := readKeyPath?_keyPath key
  rw [h.left] at hread
  exact hread h (Text.pieces_ne_nil _ _)

/-- The path of a plain key lies under the root of the keys. -/
theorem keyPath_under_root {key : String} (h : IsPlainKey key) :
    keyRoot <+: (keyPath key).toList := by
  have hread := readKeyPath?_of_isPlainKey h
  unfold readKeyPath? Url.dropWord? at hread
  split at hread
  · rename_i hroot
    exact List.isPrefixOf_iff_prefix.mp hroot
  · cases hread

/-- Which keys are addressed faithfully: the path of a key names all its segments exactly when the
key is plain. No two plain keys that differ behind their leading slashes share a path, and a lock
operation on a plain key requests a target under the root of the keys, over either transport. -/
theorem keyPath_faithful_iff (key : String) :
    (readKeyPath? (keyPath key) = some ((keySegments key).map String.ofList) ↔ IsPlainKey key) ∧
    (IsPlainKey key → keyRoot <+: (keyPath key).toList ∧
      (∀ other, IsPlainKey other → keyPath other = keyPath key →
        other.toList.dropWhile (· == '/') = key.toList.dropWhile (· == '/')) ∧
      ∀ (client : Client) operation session value call, client.KeepsTarget →
        isHeaderText client.userAgent = true →
        lockCall operation session key value = .ok call →
        ∃ request, client.request call = .ok request ∧ keyRoot <+: request.target.toList) := by
  refine ⟨⟨fun hread => ?_, readKeyPath?_of_isPlainKey⟩,
    fun hplain => ⟨keyPath_under_root hplain, ?_, ?_⟩⟩
  · -- what a path names is always read as it is
    obtain ⟨ws, hne, hws, hpath⟩ :=
      Url.Path.exists_ofSegments_eq (["v1".toList, "kv".toList] ++ keySegments key)
    have hnames : readKeyPath? (String.ofList (Url.Path.ofTexts ws)) =
        some ((keySegments key).map String.ofList) := by
      rw [← hpath]
      exact hread
    obtain ⟨vs, hvs, hmap⟩ := forall_isSegment_of_readKeyPath? hne hws hnames
    have hsegments : keySegments key = vs :=
      (List.map_inj_right fun _ _ h => String.ofList_injective h).mp hmap
    intro w hw
    exact hvs w (hsegments ▸ hw)
  · -- equal paths name equal segments, and these make up the key
    intro other hother hsame
    have hread := readKeyPath?_of_isPlainKey hother
    rw [hsame, readKeyPath?_of_isPlainKey hplain] at hread
    have hsegments : keySegments key = keySegments other :=
      (List.map_inj_right fun _ _ h => String.ofList_injective h).mp (Option.some.inj hread)
    have hjoined := congrArg (Text.joined '/') hsegments
    rw [keySegments, keySegments, Text.joined_pieces, Text.joined_pieces] at hjoined
    exact hjoined.symm
  · -- the target begins with the path
    intro client operation session value call htarget hagent hcall
    refine ⟨_, Client.request_lock htarget hagent hcall, ?_⟩
    show keyRoot <+: (keyPath key ++ "?" ++ _).toList
    rw [String.toList_append, String.toList_append, List.append_assoc]
    exact (keyPath_under_root hplain).trans (List.prefix_append _ _)

/-- A plain key with characters of every kind and an empty segment, and another plain key. -/
theorem keyPath_faithful_iff_of_escaped :
    IsPlainKey "//50%/ä b?#..//%2e" ∧
    readKeyPath? (keyPath "//50%/ä b?#..//%2e") = some ["50%", "ä b?#..", "", "%2e"] ∧
    keyPath "//50%/ä b?#..//%2e" = "/v1/kv/50%25/%C3%A4%20b%3F%23..//%252e" ∧
    keyPath "50%/ä b?#../%2e" ≠ keyPath "//50%/ä b?#..//%2e" := by
  have hplain : IsPlainKey "//50%/ä b?#..//%2e" := by decide
  have hother : IsPlainKey "50%/ä b?#../%2e" := by decide
  obtain ⟨hread, hfaithful⟩ := keyPath_faithful_iff "//50%/ä b?#..//%2e"
  obtain ⟨_, hshared, _⟩ := hfaithful hplain
  refine ⟨hplain, hread.mpr hplain, by decide +kernel, fun hsame => ?_⟩
  exact absurd (hshared _ hother hsame) (by decide)

/-- Keys that are not plain: dots around a tab lead out of the root of the keys, one dot is lost so
that two keys share a path, and the path of dots alone names no key. -/
theorem not_every_key_faithful :
    keyPath ".\t./x" = "/v1//x" ∧ ¬keyRoot <+: (keyPath ".\t./x").toList ∧
    keyPath "./a" = keyPath "a" ∧ keySegments "./a" ≠ keySegments "a" ∧
    keyPath "." = "/v1/kv" ∧
    ¬∀ key, readKeyPath? (keyPath key) = some ((keySegments key).map String.ofList) := by
  refine ⟨by decide +kernel, by decide +kernel, by decide +kernel, by decide +kernel,
    by decide +kernel, fun hall => ?_⟩
  exact absurd (hall ".\t./x") (by decide +kernel)

end Tenure
