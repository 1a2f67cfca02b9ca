import EndpointDocs.OperationId
import EndpointDocs.Proofs.Text.Cutting
import Mathlib.Data.List.TakeWhile

/-!
# Operation ids segment by segment

    path ──splitAt──▶ segments ──ofSegment──▶ names ──filter──▶ id

Each segment adds to an id what it would add on its own, so the id of a path goes on where that of
its first part ends (`generate_of_parts`). What a segment adds is told by its placeholders:
`HasPlaceholders` says which these are, for every arrangement of braces, and the scan finds them
(`placeholders_eq_iff`).
-/

namespace EndpointDocs.OperationId

/-! ## Placeholders -/

/-- The names of the placeholders of a segment: each goes from an opening brace to the next closing
one, and the next one is looked for behind that. -/
inductive HasPlaceholders : List Char → List (List Char) → Prop
  /-- No opening brace has a closing one behind it. -/
  | none {segment : List Char} : ¬ ['{', '}'].Sublist segment → HasPlaceholders segment []
  | cons {front name rest : List Char} {names : List (List Char)} : '{' ∉ front → '}' ∉ name →
      HasPlaceholders rest names →
      HasPlaceholders (front ++ '{' :: (name ++ '}' :: rest)) (name :: names)

variable {n : Nat} {c : Char} {cs segment front name rest : List Char} {names : List (List Char)}

theorem ne_of_mem {d : Char} (hc : c ∉ cs) (hd : d ∈ cs) : decide (d ≠ c) = true := by
  rw [decide_eq_true_eq]
  rintro rfl
  exact hc hd

/-- What is in front of a character and what is behind it. -/
theorem cut_append (hfront : c ∉ front) (rest : List Char) :
    (front ++ c :: rest).takeWhile (· ≠ c) = front ∧
      (front ++ c :: rest).dropWhile (· ≠ c) = c :: rest := by
  apply Text.takeWhile_dropWhile_append
  · intro d hd
    exact ne_of_mem hfront hd
  · intro d hd
    cases hd
    simp

/-- A text without a character, or cut at the first place where it stands. -/
theorem cut_cases (c : Char) (cs : List Char) :
    (c ∉ cs ∧ cs.dropWhile (· ≠ c) = []) ∨ ∃ front rest, c ∉ front ∧ cs = front ++ c :: rest := by
  by_cases hc : c ∈ cs
  · obtain ⟨front, rest, rfl, hfront⟩ := List.eq_append_cons_of_mem hc
    exact .inr ⟨front, rest, hfront, rfl⟩
  · have hdrop : cs.dropWhile (· ≠ c) = [] :=
      List.dropWhile_eq_nil_iff.2 fun d hd => ne_of_mem hc hd
    exact .inl ⟨hc, hdrop⟩

theorem braces_sublist_iff (hfront : '{' ∉ front) :
    ['{', '}'].Sublist (front ++ '{' :: rest) ↔ '}' ∈ rest := by
  induction front with
  | nil => rw [List.nil_append, List.cons_sublist_cons, List.singleton_sublist]
  | cons d front ih =>
    obtain ⟨hd, hfront⟩ := not_or.1 (mt List.mem_cons.2 hfront)
    rw [List.cons_append, List.sublist_cons_iff, or_iff_left, ih hfront]
    rintro ⟨rest, hhead, -⟩
    exact hd (List.cons.inj hhead).1

/-- The scan finds the placeholders if it may find as many as there are characters. -/
theorem hasPlaceholders_upTo (hn : segment.length ≤ n) :
    HasPlaceholders segment (placeholdersUpTo n segment) := by
  induction n generalizing segment with
  | zero =>
    obtain rfl := List.length_eq_zero_iff.1 (Nat.le_zero.1 hn)
    exact .none (by simp)
  | succ n ih =>
    unfold placeholdersUpTo
    rcases cut_cases '{' segment with ⟨hopen, hdrop⟩ | ⟨front, after, hfront, rfl⟩
    · rw [hdrop]
      exact .none fun hsub => hopen (hsub.subset List.mem_cons_self)
    · rw [(cut_append hfront after).2]
      dsimp only
      -- an opening brace without a closing one behind it ends the scan
      rcases cut_cases '}' after with ⟨hclose, hdrop⟩ | ⟨name, rest, hname, rfl⟩
      · rw [hdrop]
        exact .none fun hsub => hclose ((braces_sublist_iff hfront).1 hsub)
      · rw [(cut_append hname rest).1, (cut_append hname rest).2]
        simp only [List.length_append, List.length_cons] at hn
        exact .cons hfront hname (ih (by omega))

/-- The induction is on the placeholders, each of which is found in its turn. -/
theorem HasPlaceholders.upTo_eq (h : HasPlaceholders segment names) (hn : segment.length ≤ n) :
    placeholdersUpTo n segment = names := by
  induction h generalizing n with
  | @none segment hnone =>
    -- the scan finds no placeholder, as it would have to find both braces
    have hfound := hasPlaceholders_upTo hn
    generalize placeholdersUpTo n segment = found at hfound
    cases hfound with
    | none => rfl
    | cons hfront =>
      exact absurd ((braces_sublist_iff hfront).2 (by simp)) hnone
  -- the scan stops at the same two braces
  | @cons front name rest names hfront hname _ ih =>
    simp only [List.length_append, List.length_cons] at hn
    obtain ⟨n, rfl⟩ : ∃ m, n = m + 1 := ⟨n - 1, by omega⟩
    unfold placeholdersUpTo
    rw [(cut_append hfront _).2]
    dsimp only
    rw [(cut_append hname rest).1, (cut_append hname rest).2]
    dsimp only
    rw [ih (by omega)]

theorem placeholders_eq_iff : placeholders segment = names ↔ HasPlaceholders segment names := by
  constructor
  · rintro rfl
    exact hasPlaceholders_upTo (Nat.le_refl _)
  · intro h
    exact h.upTo_eq (Nat.le_refl _)

/-! ## Ids -/

/-- What a segment with the given placeholders adds to an id. -/
def textOf (segment : List Char) (names : List (List Char)) : List Char :=
  if names = [] then titleCase segment
  else names.flatMap fun name => "By".toList ++ titleCase name

theorem ofSegment_eq (h : HasPlaceholders segment names) :
    ofSegment segment = textOf segment names := by
  rw [ofSegment, placeholders_eq_iff.2 h]
  cases names <;> rfl

theorem ofPath_append (p q : List Char) : ofPath (p ++ '/' :: q) = ofPath p ++ ofPath q := by
  simp only [ofPath, Text.splitAt_append_cons, List.filter_append, List.flatMap_append]

theorem ofPath_segment (h : '/' ∉ segment) : ofPath segment = ofSegment segment := by
  rw [ofPath, Text.splitAt_of_not_mem h]
  cases segment with
  | nil => rfl
  | cons c rest => simp

/-- The method stands in front, and the filter leaves it as it is. -/
theorem generate_eq (path : String) (method : Method) :
    generate path method = method.key ++ String.ofList ((ofPath path.toList).filter Char.isAlphanum)
    := by
  have hkey : method.key.toList.filter Char.isAlphanum = method.key.toList := by
    cases method <;> decide +kernel
  rw [generate, List.filter_append, hkey, String.ofList_append, String.ofList_toList]

theorem key_eq_toLower (method : Method) : method.key = method.name.toLower := by
  cases method <;> decide +kernel

/-- Ids are composed segment by segment: that of a path with a slash is the id of what is in front
of it, and then what the rest adds to the name of the method. An id is this name in small letters
and then ASCII letters and digits only; in a path of one segment these are told by its placeholders,
whatever other braces there are. -/
theorem generate_of_parts (p q : String) (method : Method) :
    (∃ rest, generate q method = method.name.toLower ++ rest ∧
      generate (p ++ "/" ++ q) method = generate p method ++ rest) ∧
    (∃ rest, generate p method = method.name.toLower ++ rest) ∧
    (∀ c ∈ (generate p method).toList, c.isAlphanum = true) ∧
    ∀ names, '/' ∉ p.toList → HasPlaceholders p.toList names →
      generate p method = method.name.toLower ++
        String.ofList ((textOf p.toList names).filter Char.isAlphanum) := by
  have hpath : (p ++ "/" ++ q).toList = p.toList ++ '/' :: q.toList := by
    rw [String.toList_append, String.toList_append, List.append_assoc]
    rfl
  -- all four parts read the identifier as the method and a filtered text of the path
  rw [← key_eq_toLower]
  refine ⟨⟨_, generate_eq q method, ?_⟩, ⟨_, generate_eq p method⟩, fun c hc => ?_,
    fun names hslash hnames => ?_⟩
  · rw [generate_eq, generate_eq, hpath, ofPath_append, List.filter_append, String.ofList_append,
      String.append_assoc]
  · rw [generate, String.toList_ofList] at hc
    exact (List.mem_filter.1 hc).2
  · rw [generate_eq, ofPath_segment hslash, ofSegment_eq hnames]

/-- A closing brace in front, an opening one inside of a placeholder, and one that is not closed. -/
def strayBraces : String := "a\x7d\x7bb\x7bc\x7dx\x7bd"

theorem generate_strayBraces : generate strayBraces .get = "getByBc" ∧
    generate (strayBraces ++ "/" ++ "ﬂag") .get = "getByBcFLag" := by
  have hslash : '/' ∉ strayBraces.toList := by decide +kernel
  have hnames : HasPlaceholders strayBraces.toList [['b', '{', 'c']] := by
    have hscan : placeholders strayBraces.toList = [['b', '{', 'c']] := by decide +kernel
    exact placeholders_eq_iff.1 hscan
  obtain ⟨⟨rest, hrest, hpath⟩, -, -, hsegment⟩ := generate_of_parts strayBraces "ﬂag" .get
  have hid : generate strayBraces .get = "getByBc" :=
    (hsegment _ hslash hnames).trans (by decide +kernel)
  refine ⟨hid, ?_⟩
  have hflag : generate "ﬂag" .get = Method.get.name.toLower ++ "FLag" := by decide +kernel
  rw [hflag, String.append_right_inj] at hrest
  rw [hpath, hid, ← hrest]
  rfl

end EndpointDocs.OperationId
