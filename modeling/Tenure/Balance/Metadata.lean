/-!
# Metadata

Text under text keys, one value a key. The entries stand in the order of their keys,
so two collections that hold the same are equal, in whatever order they were filled.
-/

namespace Tenure

/-- Texts under distinct keys. -/
structure Metadata where
  entries : List (String × String)
  ordered : entries.Pairwise (fun a b => a.1 < b.1)
deriving DecidableEq

namespace Metadata

/-- No entries. -/
def empty : Metadata := ⟨[], .nil⟩

instance : Inhabited Metadata := ⟨empty⟩

/-- Puts an entry into its place among ordered ones, over an old one of its key. -/
def place (key value : String) : List (String × String) → List (String × String)
  | [] => [(key, value)]
  | e :: rest =>
    if key < e.1 then (key, value) :: e :: rest
    else if key = e.1 then (key, value) :: rest
    else e :: place key value rest

theorem mem_place {key value : String} {e : String × String} {entries : List (String × String)}
    (h : e ∈ place key value entries) : e = (key, value) ∨ e ∈ entries := by
  induction entries with
  | nil => simpa [place] using h
  | cons d rest ih =>
    unfold place at h
    split at h
    · simpa using h
    · split at h
      · simp only [List.mem_cons] at h ⊢
        rcases h with h | h
        · exact .inl h
        · exact .inr (.inr h)
      · simp only [List.mem_cons] at h ⊢
        rcases h with h | h
        · exact .inr (.inl h)
        · rcases ih h with h | h
          · exact .inl h
          · exact .inr (.inr h)

theorem pairwise_place (key value : String) {entries : List (String × String)}
    (h : entries.Pairwise (fun a b => a.1 < b.1)) :
    (place key value entries).Pairwise (fun a b => a.1 < b.1) := by
  induction entries with
  | nil => simp [place]
  | cons d rest ih =>
    obtain ⟨first, later⟩ := List.pairwise_cons.1 h
    unfold place
    split
    · rename_i before
      refine List.pairwise_cons.2 ⟨fun e he => ?_, h⟩
      rcases List.mem_cons.1 he with rfl | he
      · exact before
      · exact String.lt_trans before (first e he)
    · rename_i notBefore
      split
      · rename_i same
        exact List.pairwise_cons.2 ⟨fun e he => same ▸ first e he, later⟩
      · rename_i different
        refine List.pairwise_cons.2 ⟨fun e he => ?_, ih later⟩
        rcases mem_place he with rfl | he
        · exact Std.lt_of_le_of_ne notBefore (Ne.symm different)
        · exact first e he

/-- Sets the value of a key. -/
def insert (m : Metadata) (key value : String) : Metadata :=
  ⟨place key value m.entries, pairwise_place key value m.ordered⟩

/-- The entries, taken in one after the other. -/
def ofList (entries : List (String × String)) : Metadata :=
  entries.foldl (fun m e => m.insert e.1 e.2) empty

/-- The value of a key. -/
def get? (m : Metadata) (key : String) : Option String := m.entries.lookup key

end Metadata

end Tenure
