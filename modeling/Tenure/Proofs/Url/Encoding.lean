import Mathlib.Tactic.IntervalCases
import Tenure.Url.Percent

/-!
# Percent encoding is read back

Whatever a component keeps, as long as it does not keep the percent sign, decoding gives back
what was encoded (`decodeText?_encodeChars`). An encoded text consists of kept characters, percent
signs and hexadecimal digits (`forall_mem_encodeChars`), and a text of kept characters is encoded
as it is (`encodeChars_eq_self`).
-/

namespace Tenure.Url

variable {kept : Char → Bool}

/-! ## Characters of an encoded text -/

/-- What is true of the percent sign, of every hexadecimal digit and of what is kept is true of
whatever stands for a character. -/
theorem forall_mem_encodeChar {P : Char → Prop} (hpercent : P '%')
    (hdigit : ∀ n < 16, P (hexDigit n)) (hkept : ∀ c, isAscii c = true → kept c = true → P c)
    (d : Char) : ∀ c ∈ encodeChar kept d, P c := by
  intro c hc
  unfold encodeChar at hc
  split at hc
  · rename_i hplain
    obtain rfl := List.mem_singleton.mp hc
    obtain ⟨hascii, hc⟩ := Bool.and_eq_true_iff.mp hplain
    exact hkept c hascii hc
  · obtain ⟨b, _, hb⟩ := List.mem_flatMap.mp hc
    have hbyte : b.toNat < 256 := UInt8.toNat_lt b
    rcases List.mem_cons.mp hb with rfl | hb
    · exact hpercent
    rcases List.mem_cons.mp hb with rfl | hb
    · exact hdigit _ (by omega)
    · rw [List.mem_singleton.mp hb]
      exact hdigit _ (by omega)

/-- And of every character of an encoded text. -/
theorem forall_mem_encodeChars {P : Char → Prop} (hpercent : P '%')
    (hdigit : ∀ n < 16, P (hexDigit n)) (hkept : ∀ c, isAscii c = true → kept c = true → P c)
    (cs : List Char) : ∀ c ∈ encodeChars kept cs, P c := by
  intro c hc
  obtain ⟨d, _, hd⟩ := List.mem_flatMap.mp hc
  exact forall_mem_encodeChar hpercent hdigit hkept d c hd

theorem encodeChars_eq_self {cs : List Char}
    (h : ∀ c ∈ cs, isAscii c = true ∧ kept c = true) : encodeChars kept cs = cs := by
  induction cs with
  | nil => rfl
  | cons c rest ih =>
      obtain ⟨hascii, hkept⟩ := h c List.mem_cons_self
      have hrest := ih fun d hd => h d (List.mem_cons_of_mem _ hd)
      unfold encodeChars at hrest ⊢
      rw [List.flatMap_cons, hrest, encodeChar, hascii, hkept]
      rfl

/-! ## Reading back -/

theorem hexValue?_hexDigit {n : Nat} (h : n < 16) : hexValue? (hexDigit n) = some n := by
  interval_cases n <;> rfl

theorem decodeBytes_percentByte (b : UInt8) (rest : List Char) :
    decodeBytes (percentByte b ++ rest) = b :: decodeBytes rest := by
  have hb : b.toNat < 256 := UInt8.toNat_lt b
  show decodeBytes ('%' :: hexDigit (b.toNat / 16) :: hexDigit (b.toNat % 16) :: rest) = _
  rw [decodeBytes, hexValue?_hexDigit (by omega), hexValue?_hexDigit (by omega)]
  dsimp only
  rw [Nat.div_add_mod, UInt8.ofNat_toNat]

theorem decodeBytes_percentBytes (bs : List UInt8) (rest : List Char) :
    decodeBytes (bs.flatMap percentByte ++ rest) = bs ++ decodeBytes rest := by
  induction bs with
  | nil => rfl
  | cons b bs ih =>
      rw [List.flatMap_cons, List.append_assoc, decodeBytes_percentByte, ih, List.cons_append]

theorem decodeBytes_cons {c : Char} (h : c ≠ '%') (rest : List Char) :
    decodeBytes (c :: rest) = String.utf8EncodeChar c ++ decodeBytes rest := by
  rw [decodeBytes.eq_def]
  split
  · rename_i hcons
    exact absurd (List.cons.inj hcons).1 h
  · rename_i hcons
    obtain ⟨rfl, rfl⟩ := List.cons.inj hcons
    rfl
  · rename_i hnil
    cases hnil

theorem decodeBytes_encodeChar (hpercent : kept '%' = false) (c : Char) (rest : List Char) :
    decodeBytes (encodeChar kept c ++ rest) = String.utf8EncodeChar c ++ decodeBytes rest := by
  unfold encodeChar
  split
  · rename_i hplain
    refine decodeBytes_cons ?_ rest
    rintro rfl
    rw [hpercent, Bool.and_false] at hplain
    exact Bool.false_ne_true hplain
  · exact decodeBytes_percentBytes _ rest

theorem decodeBytes_encodeChars (hpercent : kept '%' = false) (cs rest : List Char) :
    decodeBytes (encodeChars kept cs ++ rest) =
      cs.flatMap String.utf8EncodeChar ++ decodeBytes rest := by
  induction cs with
  | nil => rfl
  | cons c cs ih =>
      unfold encodeChars at ih ⊢
      rw [List.flatMap_cons, List.append_assoc, decodeBytes_encodeChar hpercent, ih,
        List.flatMap_cons, List.append_assoc]

/-- Decoding an encoded text gives the text back. -/
theorem decodeText?_encodeChars (hpercent : kept '%' = false) (cs : List Char) :
    decodeText? (encodeChars kept cs) = some (String.ofList cs) := by
  have hbytes : decodeBytes (encodeChars kept cs) = cs.flatMap String.utf8EncodeChar := by
    have happend := decodeBytes_encodeChars hpercent cs []
    rwa [List.append_nil, decodeBytes, List.append_nil] at happend
  have hutf8 : (⟨(cs.flatMap String.utf8EncodeChar).toArray⟩ : ByteArray) = cs.utf8Encode :=
    ByteArray.ext List.data_toByteArray.symm
  unfold decodeText? String.fromUTF8?
  rw [hbytes, hutf8, dif_pos ByteArray.isValidUTF8_utf8Encode]
  rfl

end Tenure.Url
