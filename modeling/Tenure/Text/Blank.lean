/-!
# Blank characters

White space in the sense of the Unicode property `White_Space`, and the trimming
of texts by it. `trimChars` drops blanks at both ends only; `isBlankText` is the rule
for a text that says nothing.
-/

namespace Tenure.Text

/-- The characters with the Unicode property `White_Space`. -/
def isBlank (c : Char) : Bool :=
  let n := c.toNat
  (0x09 ≤ n && n ≤ 0x0D) || n == 0x20 || n == 0x85 || n == 0xA0 || n == 0x1680
    || (0x2000 ≤ n && n ≤ 0x200A) || n == 0x2028 || n == 0x2029 || n == 0x202F
    || n == 0x205F || n == 0x3000

/-- The list without its leading and trailing blanks. -/
def trimChars (cs : List Char) : List Char :=
  ((cs.dropWhile isBlank).reverse.dropWhile isBlank).reverse

/-- Whether a text consists of blanks alone. -/
def isBlankText (s : String) : Bool := s.toList.all isBlank

/-! ## Texts that need no trimming -/

/-- Nothing is dropped from a text without characters of the kind. -/
theorem dropWhile_eq_self {p : Char → Bool} {cs : List Char} (h : ∀ c ∈ cs, p c = false) :
    cs.dropWhile p = cs := by
  cases cs with
  | nil => rfl
  | cons c cs => exact List.dropWhile_cons_of_neg (by rw [h c List.mem_cons_self]; simp)

/-- Nor from its end. -/
theorem reverse_dropWhile_reverse {p : Char → Bool} {cs : List Char} (h : ∀ c ∈ cs, p c = false) :
    (cs.reverse.dropWhile p).reverse = cs := by
  rw [dropWhile_eq_self fun c hc => h c (List.mem_reverse.mp hc), List.reverse_reverse]

theorem trimChars_eq_self {cs : List Char} (h : ∀ c ∈ cs, isBlank c = false) :
    trimChars cs = cs := by
  unfold trimChars
  rw [dropWhile_eq_self h, reverse_dropWhile_reverse h]

end Tenure.Text
