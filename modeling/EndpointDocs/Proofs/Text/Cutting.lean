import EndpointDocs.Text.Blank
import EndpointDocs.Text.Split

/-!
# Cutting a text

Readers cut a text where a class of characters ends, drop such characters at its ends, or split it
at separators. Each cut is described here for a text of two pieces, the first of which is to stay
whole; what may follow it is a condition on the head of the second piece.
-/

namespace EndpointDocs.Text

/-! ## Deciding

A statement on the characters of a text is decided on these. The priority keeps it from being
decided on all characters there are, where an instance for these is in scope.
-/

section Deciding

variable {P : Char → Prop} [DecidablePred P]

instance (priority := high) decidableForallMemChars (cs : List Char) : Decidable (∀ c ∈ cs, P c) :=
  List.decidableBAll P cs

instance (priority := high) decidableForallMemChar? (o : Option Char) : Decidable (∀ c ∈ o, P c) :=
  Option.decidableForallMem o

instance (priority := high) decidableExistsMemChar? (o : Option Char) :
    Decidable (∃ c ∈ o, P c) :=
  Option.decidableExistsMem o

end Deciding

variable {p : Char → Bool} {cs front u : List Char}

/-! ## Where a class of characters ends -/

/-- What is in front of the first character outside a class, and what is behind it. -/
theorem takeWhile_dropWhile_append (hcs : ∀ c ∈ cs, p c = true)
    (hu : ∀ c ∈ u.head?, p c = false) :
    (cs ++ u).takeWhile p = cs ∧ (cs ++ u).dropWhile p = u := by
  have hstop : u.takeWhile p = [] ∧ u.dropWhile p = u := by
    cases u with
    | nil => exact ⟨rfl, rfl⟩
    | cons c rest => simp [hu c rfl]
  rw [List.takeWhile_append_of_pos hcs, List.dropWhile_append_of_pos hcs, hstop.1, hstop.2]
  exact ⟨List.append_nil cs, rfl⟩

/-! ## Dropping at both ends -/

theorem dropWhile_of_head? (h : ∀ c ∈ cs.head?, p c = false) : cs.dropWhile p = cs :=
  (takeWhile_dropWhile_append (List.forall_mem_nil _) h).2

/-- Dropping at the end stops inside the second piece, or at the end of the first. -/
theorem dropWhile_reverse_append (hfront : ∀ c ∈ front.getLast?, p c = false)
    (hu : ∀ c ∈ u.head?, p c = false) :
    ∃ rest, ((front ++ u).reverse.dropWhile p).reverse = front ++ rest ∧
      rest.head? = u.head? := by
  cases u with
  | nil =>
    refine ⟨[], ?_, rfl⟩
    rw [List.append_nil, dropWhile_of_head? (by rwa [List.head?_reverse]), List.reverse_reverse]
  | cons c u =>
    -- nothing in front of the head of the second piece is dropped
    refine ⟨c :: (u.reverse.dropWhile p).reverse, ?_, rfl⟩
    have hc : (c :: front.reverse).dropWhile p = c :: front.reverse :=
      dropWhile_of_head? hu
    rw [List.reverse_append, List.reverse_cons, List.append_assoc, List.singleton_append,
      List.dropWhile_append, hc]
    split
    · next hnone => simp [List.isEmpty_iff.1 hnone]
    · simp

/-- Dropping at both ends keeps a first piece that neither starts nor ends with what is dropped. -/
theorem dropWhile_ends_append (hne : front ≠ []) (hhead : ∀ c ∈ front.head?, p c = false)
    (hlast : ∀ c ∈ front.getLast?, p c = false) (hu : ∀ c ∈ u.head?, p c = false) :
    ∃ rest, (((front ++ u).dropWhile p).reverse.dropWhile p).reverse = front ++ rest ∧
      rest.head? = u.head? := by
  have hstart : (front ++ u).dropWhile p = front ++ u := by
    obtain ⟨c, rest, rfl⟩ := List.exists_cons_of_ne_nil hne
    exact dropWhile_of_head? hhead
  rw [hstart]
  exact dropWhile_reverse_append hlast hu

/-! ## Splitting -/

theorem splitWhere_congr {q : Char → Bool} (h : ∀ c ∈ cs, p c = q c) :
    splitWhere p cs = splitWhere q cs := by
  induction cs with
  | nil => rfl
  | cons c rest ih =>
    obtain ⟨hc, hrest⟩ := List.forall_mem_cons.1 h
    rw [splitWhere, splitWhere, hc, ih hrest]

theorem joinWith_cons_cons (sep : Char) (piece next : List Char) (pieces : List (List Char)) :
    joinWith sep (piece :: next :: pieces) = piece ++ sep :: joinWith sep (next :: pieces) :=
  rfl

theorem mem_joinWith {sep c : Char} {piece : List Char} {pieces : List (List Char)}
    (hpiece : piece ∈ pieces) (hc : c ∈ piece) : c ∈ joinWith sep pieces := by
  induction pieces with
  | nil => cases hpiece
  | cons first pieces ih =>
    cases pieces with
    | nil =>
      obtain rfl := List.mem_singleton.1 hpiece
      exact hc
    | cons next pieces =>
      rw [joinWith_cons_cons]
      rcases List.mem_cons.1 hpiece with rfl | hrest
      · exact List.mem_append_left _ hc
      · exact List.mem_append_right _ (List.mem_cons_of_mem _ (ih hrest))

/-- The pieces hold nothing that the text does not. -/
theorem mem_of_mem_splitAt {sep c : Char} {piece : List Char} (hpiece : piece ∈ splitAt sep cs)
    (hc : c ∈ piece) : c ∈ cs := by
  rw [← joinWith_splitAt sep cs]
  exact mem_joinWith hpiece hc

end EndpointDocs.Text
