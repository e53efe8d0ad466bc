/-!
# Pieces of a text

A text cut at every occurrence of a separator. There is always one piece more than there
are separators, so pieces may be empty, and joining them with the separator gives the
text back (`joined_pieces`); a text without separators is one piece (`pieces_of_notMem`),
and what it stands before is cut on its own (`pieces_append`).
-/

namespace Tenure.Text

/-- The pieces between the occurrences of a separator. -/
def pieces (separator : Char) : List Char → List (List Char)
  | [] => [[]]
  | c :: cs =>
    if c = separator then [] :: pieces separator cs
    else match pieces separator cs with
      | p :: ps => (c :: p) :: ps
      | [] => [[c]]

/-- Pieces with the separator between them. -/
def joined (separator : Char) : List (List Char) → List Char
  | [] => []
  | [p] => p
  | p :: ps => p ++ separator :: joined separator ps

theorem pieces_ne_nil (separator : Char) (cs : List Char) : pieces separator cs ≠ [] := by
  cases cs with
  | nil => simp [pieces]
  | cons c cs =>
    unfold pieces
    split
    · simp
    · split <;> simp

theorem joined_pieces (separator : Char) (cs : List Char) :
    joined separator (pieces separator cs) = cs := by
  induction cs with
  | nil => rfl
  | cons c cs ih =>
    have some_piece := pieces_ne_nil separator cs
    unfold pieces
    split
    · rename_i same
      cases h : pieces separator cs with
      | nil => exact absurd h some_piece
      | cons p ps => rw [h] at ih; simp [joined, ih, same]
    · cases h : pieces separator cs with
      | nil => exact absurd h some_piece
      | cons p ps =>
        rw [h] at ih
        cases ps with
        | nil => simpa [joined] using ih
        | cons q qs => simpa [joined] using ih

theorem pieces_of_notMem {separator : Char} {p : List Char} (h : separator ∉ p) :
    pieces separator p = [p] := by
  induction p with
  | nil => rfl
  | cons c p ih =>
    obtain ⟨hc, hp⟩ := not_or.mp (mt List.mem_cons.mpr h)
    rw [pieces, if_neg (Ne.symm hc), ih hp]

theorem pieces_append {separator : Char} {p : List Char} (h : separator ∉ p) (rest : List Char) :
    pieces separator (p ++ separator :: rest) = p :: pieces separator rest := by
  induction p with
  | nil => exact if_pos rfl
  | cons c p ih =>
    obtain ⟨hc, hp⟩ := not_or.mp (mt List.mem_cons.mpr h)
    rw [List.cons_append, pieces, if_neg (Ne.symm hc), ih hp]

/-! ## Up to a separator -/

theorem takeWhile_append_cons {p : Char → Bool} {a : List Char} {c : Char} (rest : List Char)
    (ha : ∀ d ∈ a, p d = true) (hc : p c = false) : (a ++ c :: rest).takeWhile p = a := by
  rw [List.takeWhile_append_of_pos ha, List.takeWhile_cons_of_neg (by rw [hc]; simp),
    List.append_nil]

theorem dropWhile_append_cons {p : Char → Bool} {a : List Char} {c : Char} (rest : List Char)
    (ha : ∀ d ∈ a, p d = true) (hc : p c = false) :
    (a ++ c :: rest).dropWhile p = c :: rest := by
  rw [List.dropWhile_append_of_pos ha, List.dropWhile_cons_of_neg (by rw [hc]; simp)]

end Tenure.Text
