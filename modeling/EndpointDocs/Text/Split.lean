/-!
# Splitting at a separator

`splitAt sep cs` is the list of the pieces of a text between its separators: one piece more than
there are separators, none of which holds one (`not_mem_of_mem_splitAt`), and `joinWith` puts them
together again (`joinWith_splitAt`).
-/

namespace EndpointDocs.Text

/-- The pieces of a text between the characters that separate. -/
def splitWhere (sep : Char → Bool) : List Char → List (List Char)
  | [] => [[]]
  | c :: rest =>
    if sep c then [] :: splitWhere sep rest
    else match splitWhere sep rest with
      | piece :: pieces => (c :: piece) :: pieces
      | [] => [[c]]

def splitAt (sep : Char) (cs : List Char) : List (List Char) := splitWhere (· == sep) cs

/-- The pieces with a separator between neighbours. -/
def joinWith (sep : Char) : List (List Char) → List Char
  | [] => []
  | [piece] => piece
  | piece :: pieces => piece ++ sep :: joinWith sep pieces

theorem splitWhere_ne_nil (sep : Char → Bool) (cs : List Char) : splitWhere sep cs ≠ [] := by
  cases cs with
  | nil => simp [splitWhere]
  | cons c rest =>
    rw [splitWhere]
    split
    · simp
    · split <;> simp

/-- No piece holds a separator. -/
theorem not_mem_of_mem_splitAt {sep : Char} {cs piece : List Char} (h : piece ∈ splitAt sep cs) :
    sep ∉ piece := by
  induction cs generalizing piece with
  | nil =>
    simp only [splitAt, splitWhere, List.mem_singleton] at h
    simp [h]
  | cons c rest ih =>
    simp only [splitAt, splitWhere, beq_iff_eq] at h
    split at h
    · rcases List.mem_cons.1 h with rfl | h
      · simp
      · exact ih h
    · -- any other character belongs to the first piece
      next hc =>
      split at h
      · next first pieces hs =>
        rcases List.mem_cons.1 h with rfl | h
        · have := @ih first (by simp [splitAt, hs])
          simp [this, Ne.symm hc]
        · exact ih (by simp [splitAt, hs, h])
      · next hs => exact absurd hs (splitWhere_ne_nil _ _)

/-- Joining undoes splitting. -/
theorem joinWith_splitAt (sep : Char) (cs : List Char) : joinWith sep (splitAt sep cs) = cs := by
  induction cs with
  | nil => rfl
  | cons c rest ih =>
    simp only [splitAt, splitWhere, beq_iff_eq]
    split
    · next hc =>
      -- a separator starts a piece, and no list of pieces is empty
      cases hs : splitWhere (· == sep) rest with
      | nil => exact absurd hs (splitWhere_ne_nil _ _)
      | cons first pieces =>
        rw [splitAt, hs] at ih
        simp [joinWith, ih, hc]
    · next hc =>
      cases hs : splitWhere (· == sep) rest with
      | nil => exact absurd hs (splitWhere_ne_nil _ _)
      | cons first pieces =>
        rw [splitAt, hs] at ih
        -- the character goes in front of the first piece, which may be the only one
        cases pieces with
        | nil => simpa [joinWith] using ih
        | cons second pieces => simpa [joinWith] using ih

/-- A text without separators is one piece. -/
theorem splitAt_of_not_mem {sep : Char} {cs : List Char} (h : sep ∉ cs) :
    splitAt sep cs = [cs] := by
  induction cs with
  | nil => rfl
  | cons c rest ih =>
    obtain ⟨hc, hrest⟩ := not_or.1 (mt List.mem_cons.2 h)
    have hpieces : splitWhere (· == sep) rest = [rest] := ih hrest
    rw [splitAt, splitWhere, if_neg (by simpa using Ne.symm hc), hpieces]

/-- The pieces on both sides of a separator. -/
theorem splitAt_append_cons (sep : Char) (cs ds : List Char) :
    splitAt sep (cs ++ sep :: ds) = splitAt sep cs ++ splitAt sep ds := by
  unfold splitAt
  induction cs with
  | nil => simp [splitWhere]
  | cons c rest ih =>
    simp only [List.cons_append, splitWhere, ih]
    split
    · rfl
    · cases hs : splitWhere (· == sep) rest with
      | nil => exact absurd hs (splitWhere_ne_nil _ _)
      | cons piece pieces => rfl

end EndpointDocs.Text
