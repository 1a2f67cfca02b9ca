import EndpointDocs.Proofs.Text.Cutting
import EndpointDocs.Source.Item
import Mathlib.Tactic.ByContra

/-!
# Cutting text into names and marks

A text of identifiers, spaces and the marks that structure a type (`IsStructure`) is cut into a word
for each identifier and a token for each mark. An identifier ends where a mark stands (`EndsName`),
and no such text is taken for a literal, a raw name or a comment, as it has no quotes and no number
signs but those of raw names. Main statements: `Lexes.word`, `Lexes.mark` and `Lexes.space`, which
build the tokens of a text from its end.
-/

namespace EndpointDocs

/-! ## Characters of identifiers

What is used of the tables of letters: that no blank character is in an identifier, that a letter
that may start one may also stand inside, and that no digit starts one. The tables are run through
for the few code points in question. -/

namespace Text

/-- The code points of white space, of the marks that count as such, and of the byte order mark. -/
def spacePoints : List Nat :=
  [9, 10, 11, 12, 13, 0x20, 0x85, 0xA0, 0x1680, 0x2000, 0x2001, 0x2002, 0x2003, 0x2004, 0x2005,
    0x2006, 0x2007, 0x2008, 0x2009, 0x200A, 0x200E, 0x200F, 0x2028, 0x2029, 0x202F, 0x205F, 0x3000,
    0xFEFF]

theorem isIdentifierContinue_spacePoints :
    ∀ n ∈ spacePoints, isIdentifierContinue (Char.ofNat n) = false := by
  decide +kernel

variable {c : Char} {cs : List Char}

theorem toNat_not_mem_spacePoints (h : isIdentifierContinue c = true) :
    c.toNat ∉ spacePoints := by
  intro hmem
  have hnot := isIdentifierContinue_spacePoints c.toNat hmem
  rw [Char.ofNat_toNat, h] at hnot
  cases hnot

theorem not_isBlank_of_continue (h : isIdentifierContinue c = true) : isBlank c = false := by
  have hmem := toNat_not_mem_spacePoints h
  simp only [spacePoints, List.mem_cons, List.not_mem_nil] at hmem
  simp only [isBlank, Bool.or_eq_false_iff, Bool.and_eq_false_iff, beq_eq_false_iff_ne,
    decide_eq_false_iff_not, ne_eq]
  omega

theorem isIdentifierContinue_of_start (h : isIdentifierStart c = true) :
    isIdentifierContinue c = true := by
  unfold isIdentifierStart at h
  unfold isIdentifierContinue
  split at h
  · next hc =>
    rw [if_pos hc]
    simp only [Char.isAlphanum, Bool.or_eq_true] at h ⊢
    grind
  -- outside of ASCII the two tables are tested as they stand
  · next hc => simp [hc, h]

theorem not_isDigit_of_start (h : isIdentifierStart c = true) : c.isDigit = false := by
  have hdigits : ∀ n ∈ List.range' 48 10, isIdentifierStart (Char.ofNat n) = false := by decide
  by_contra hdigit
  have hrange : 48 ≤ c.toNat ∧ c.toNat ≤ 57 := by
    simpa [Char.isDigit, UInt32.le_iff_toNat_le] using hdigit
  have hnot := hdigits c.toNat (List.mem_range'_1.2 ⟨hrange.1, by omega⟩)
  rw [Char.ofNat_toNat, h] at hnot
  cases hnot

theorem continue_of_isIdentifier (h : isIdentifier cs = true) :
    ∀ c ∈ cs, isIdentifierContinue c = true := by
  cases cs with
  | nil => cases h
  | cons c rest =>
    rw [isIdentifier, Bool.and_eq_true, List.all_eq_true] at h
    exact List.forall_mem_cons.2 ⟨isIdentifierContinue_of_start h.1, h.2⟩

end Text

namespace Source

/-- An identifier by its form that is no keyword, or a raw one. No raw identifier is one of the
words that start a path. -/
def IsIdentifier (name : String) : Prop :=
  (Text.isIdentifier name.toList = true ∧ name ∉ keywords) ∨
    ∃ body, name.toList = 'r' :: '#' :: body ∧ Text.isIdentifier body = true ∧
      String.ofList body ∉ ["_", "super", "self", "Self", "crate"]

namespace Lexer

variable {c : Char} {cs rest u : List Char} {t : Token} {name : String}

/-! ## No literals

Literals are tried before names. All but numbers have a quote in them somewhere, and numbers start
with a digit or a bar. -/

theorem raw?_eq_none {kind : Quoted} (h : '"' ∉ cs) : raw? kind cs = none := by
  unfold raw?
  dsimp only
  split
  · next heq => exact absurd (List.mem_of_mem_drop (heq ▸ List.mem_cons_self)) h
  · rfl

theorem text?_eq_none (h : '"' ∉ cs) : text? cs = none := by
  unfold text?
  split
  · exact absurd List.mem_cons_self h
  · exact raw?_eq_none fun hm => h (List.mem_cons_of_mem _ hm)
  · rfl

theorem afterBytes?_eq_none (h : '"' ∉ cs) (h' : '\'' ∉ cs) : afterBytes? cs = none := by
  -- the letters in front of a quote are passed over, one or two of them
  have raw : ∀ kind a b rest, cs = a :: b :: rest → raw? kind rest = none := by
    rintro kind a b rest rfl
    exact raw?_eq_none fun hm => h (List.mem_cons_of_mem _ (List.mem_cons_of_mem _ hm))
  unfold afterBytes?
  split
  · simp at h
  · rw [raw _ _ _ _ rfl]
    rfl
  · simp at h
  · rw [raw _ _ _ _ rfl]
    rfl
  · simp at h'
  · simp at h'
  · rfl

theorem number?_eq_none (h : c.isDigit = false) : number? (c :: rest) = none := by
  have hfloat : float? (c :: rest) = none := by
    -- a run of digits may hold bars, but begins with a digit
    by_cases hbar : c = '_'
    · simp [float?, isDigitOrBar, hbar]
    · simp [float?, isDigitOrBar, h, hbar]
  have hzero : c ≠ '0' := by
    rintro rfl
    exact absurd h (by decide)
  have hinteger : integer? (c :: rest) = none := by
    unfold integer?
    split
    -- without a leading zero there is no mark of another base
    next base lead digits heq =>
      have hdecimal : (10, [], c :: rest) = (base, lead, digits) := by
        rw [← heq]
        split <;> simp_all
      cases hdecimal
      by_cases hbar : c = '_'
      · simp [isDigitOrBar, hbar]
      · simp [isDigitOrBar, h, hbar]
  rw [number?, hfloat]
  simp [hinteger]

/-- A text without quotes that starts with no digit starts with no literal. -/
theorem literal?_eq_none (hquiet : '"' ∉ c :: rest ∧ '\'' ∉ c :: rest) (h : c.isDigit = false) :
    literal? (c :: rest) = none := by
  rw [literal?, text?_eq_none hquiet.1, afterBytes?_eq_none hquiet.1 hquiet.2]
  exact number?_eq_none h

/-! ## Marks

Three marks structure a written type. Which token one of them becomes depends on the character
behind it: it is joined to another mark there. -/

/-- A character that structures a written type. -/
def IsStructure (c : Char) : Prop := c = '<' ∨ c = ',' ∨ c = '>'

instance : DecidablePred IsStructure := fun _ => inferInstanceAs (Decidable (_ ∨ _ ∨ _))

/-- None of the three starts a literal, a name or a comment. -/
theorem leaf?_of_isStructure (hquiet : '"' ∉ rest ∧ '\'' ∉ rest) (hc : IsStructure c) :
    leaf? (c :: rest) = some (.mark c (startsWithMark rest), rest) := by
  rcases hc with rfl | rfl | rfl
  all_goals
    rw [leaf?, literal?_eq_none (by simp [hquiet]) (by decide)]
    · rfl
    · decide

theorem not_isMark_of_start (h : Text.isIdentifierStart c = true) : isMark c = false := by
  have hmarks : ∀ d ∈ "~!@#$%^&*-=+|;:,<.>/?'".toList, Text.isIdentifierStart d = false := by
    decide
  rw [isMark, List.contains_eq_mem, decide_eq_false_iff_not]
  intro hmem
  rw [hmarks c hmem] at h
  cases h

/-- A letter is not a mark, so what is in front of a name stands alone. -/
theorem startsWithMark_of_start (h : Text.isIdentifierStart c = true) (rest : List Char) :
    startsWithMark (c :: rest) = false := by
  unfold startsWithMark
  split
  · rfl
  · rfl
  · next heq =>
    cases heq
    exact not_isMark_of_start h
  · rfl

/-! ## Names

A name goes on as long as its characters do, so it is cut where the text behind it starts with
another one. Before a name is read, the lexer looks whether a literal with letters in front starts
here (`r"`, `b'`, ...), and whether the name is a raw one. Both tests look past the letters, at a
quote or a sign that is not there. -/

/-- Nothing stands behind a name, or what structures a type. -/
def EndsName (cs : List Char) : Prop := ∀ c ∈ cs.head?, IsStructure c

/-- No mark goes on with the name. -/
theorem EndsName.not_continue (h : EndsName cs) :
    ∀ c ∈ cs.head?, Text.isIdentifierContinue c = false := by
  intro c hc
  rcases h c hc with rfl | rfl | rfl <;> decide

/-- If the characters in front of a text are none of an identifier from some place on, then the name
that the text starts with has ended there. -/
theorem isStructure_of_front {front : List Char} {x : Char}
    (hcs : ∀ c ∈ cs, Text.isIdentifierContinue c = true) (hu : EndsName u)
    (hfront : front <+: cs ++ u)
    (hx : x ∈ (front.dropWhile Text.isIdentifierContinue).head?) : IsStructure x := by
  obtain ⟨rest, hrest⟩ := hfront
  obtain ⟨more, hmore⟩ := List.head?_eq_some_iff.1 hx
  have hbehind := (Text.takeWhile_dropWhile_append hcs hu.not_continue).2
  rw [← hrest, List.dropWhile_append, hmore] at hbehind
  exact hu x (by simp [← hbehind])

theorem identifier?_append (hcs : Text.isIdentifier cs = true) (hu : EndsName u) :
    identifier? (cs ++ u) = some (cs, u) := by
  cases cs with
  | nil => cases hcs
  | cons c rest =>
    rw [Text.isIdentifier, Bool.and_eq_true, List.all_eq_true] at hcs
    obtain ⟨htake, hdrop⟩ := Text.takeWhile_dropWhile_append hcs.2 hu.not_continue
    rw [List.cons_append, identifier?, if_pos hcs.1, htake, hdrop]

/-- A name is read as far as it goes, raw or not. -/
theorem word?_append (hname : IsIdentifier name) (hu : EndsName u) :
    word? (name.toList ++ u) = some (name.toList, u) := by
  rcases hname with ⟨hplain, -⟩ | ⟨body, hraw, hbody, hfree⟩
  · unfold word?
    split
    · next rest heq =>
      -- a plain name is not followed by the sign of a raw one
      have hfront : ['r', '#'] <+: name.toList ++ u := ⟨rest, heq.symm⟩
      have hsign : IsStructure '#' :=
        isStructure_of_front (Text.continue_of_isIdentifier hplain) hu hfront (by decide)
      exact absurd hsign (by decide)
    · exact identifier?_append hplain hu
  -- a raw name is refused if it is one of the words that can not be raw
  · rw [hraw, List.cons_append, List.cons_append, word?, identifier?_append hbody hu]
    dsimp only
    rw [if_neg]
    intro hany
    obtain ⟨w, hw, hsame⟩ := List.any_eq_true.1 hany
    rw [← beq_iff_eq.1 hsame, String.ofList_toList] at hfree
    exact hfree hw

/-- No literal with letters in front starts here. -/
theorem not_startsLikeLiteral (hname : IsIdentifier name) (hu : EndsName u) :
    startsLikeLiteral (name.toList ++ u) = false := by
  rcases hname with ⟨hplain, -⟩ | ⟨body, hraw, hbody, -⟩
  -- each of these goes on with a quote or a sign behind its letters
  · have hquotes : ∀ p ∈ ["r\"", "r#\"", "r##", "b\"", "b'", "br\"", "br#", "c\"", "cr\"", "cr#"],
        ∃ x ∈ (p.toList.dropWhile Text.isIdentifierContinue).head?, ¬ IsStructure x := by
      decide
    rw [startsLikeLiteral, List.any_eq_false]
    intro p hp hprefix
    obtain ⟨x, hx, hstructure⟩ := hquotes p hp
    exact hstructure (isStructure_of_front (Text.continue_of_isIdentifier hplain) hu
      (List.isPrefixOf_iff_prefix.1 hprefix) hx)
  · cases body with
    | nil => cases hbody
    | cons c rest =>
      rw [Text.isIdentifier, Bool.and_eq_true] at hbody
      have hquote : c ≠ '"' ∧ c ≠ '#' := by
        constructor
        all_goals
          rintro rfl
          exact absurd hbody.1 (by decide)
      rw [hraw]
      simp [startsLikeLiteral, List.isPrefixOf, Ne.symm hquote.1, Ne.symm hquote.2]

/-- An identifier starts with a letter. -/
theorem exists_start (hname : IsIdentifier name) :
    ∃ c rest, name.toList = c :: rest ∧ Text.isIdentifierStart c = true := by
  rcases hname with ⟨hplain, -⟩ | ⟨body, hraw, -, -⟩
  · cases hcs : name.toList with
    | nil =>
      rw [hcs] at hplain
      cases hplain
    | cons c rest =>
      rw [hcs, Text.isIdentifier, Bool.and_eq_true] at hplain
      exact ⟨c, rest, rfl, hplain.1⟩
  · exact ⟨'r', _, hraw, by decide⟩

/-- An identifier in front of a text is one word. -/
theorem leaf?_append (hname : IsIdentifier name) (hu : EndsName u)
    (hquiet : '"' ∉ name.toList ++ u ∧ '\'' ∉ name.toList ++ u) :
    ∃ w : Word, w.text = name ∧ leaf? (name.toList ++ u) = some (.word w, u) := by
  obtain ⟨c, rest, hcs, hstart⟩ := exists_start hname
  have hword := word?_append hname hu
  have hlike := not_startsLikeLiteral hname hu
  rw [hcs, List.cons_append] at hword hlike hquiet ⊢
  -- whatever could come before words in the order of `leaf?` is excluded by the first character
  have hmark := startsWithMark_of_start hstart (rest ++ u)
  rw [leaf?, literal?_eq_none hquiet (Text.not_isDigit_of_start hstart)]
  · dsimp only
    rw [if_neg (by simp [hmark]), if_neg (by simp [hlike])]
    split
    · next name' rest' found =>
      rw [hword] at found
      cases found
      refine ⟨_, ?_, rfl⟩
      show String.ofList (c :: rest) = name
      rw [← hcs, String.ofList_toList]
    · next found =>
      rw [hword] at found
      cases found
  · rintro rfl
    exact absurd hstart (by decide)

/-! ## One lexeme after the other

The lexer takes off blanks and comments, and then one lexeme after another, for at most as many
rounds as there are characters. `Lexes` is about texts without quotes, so that the lemmas of the
last sections hold of what is left after each round. -/

/-- The characters that open what is no single token: comments and groups. -/
def opensOther (c : Char) : Bool := "/()[]\x7b\x7d".toList.contains c

theorem skipSpace_of_not_isSpace {n : Nat} (h : isSpace c = false) (hslash : c ≠ '/') :
    skipSpace (n + 1) (c :: rest) = c :: rest := by
  -- a comment starts with a slash
  have hcomment : afterComment? (c :: rest) = none := by
    unfold afterComment?
    split <;> simp_all
  simp [skipSpace, hcomment, h]

theorem docComment?_eq_none (hslash : c ≠ '/') : docComment? (c :: rest) = none := by
  unfold docComment?
  split <;> simp_all

/-- A round that starts with neither a blank, a comment nor a group takes one token. -/
theorem lexemes?_of_leaf? {n : Nat} (hspace : isSpace c = false) (hother : opensOther c = false)
    (hleaf : leaf? (c :: rest) = some (t, u)) :
    lexemes? (n + 1) (c :: rest) = (lexemes? n u).map (.token t :: ·) := by
  have hslash : c ≠ '/' := by
    rintro rfl
    exact absurd hother (by decide)
  rw [lexemes?, skipSpace_of_not_isSpace hspace hslash]
  dsimp only
  rw [docComment?_eq_none hslash]
  dsimp only
  split
  case h_8 =>
    rw [hleaf]
    rfl
  all_goals simp_all [opensOther]

/-- A blank changes nothing about what is read behind it. -/
theorem lexemes?_space (n : Nat) : lexemes? n (' ' :: rest) = lexemes? n rest := by
  cases n with
  | zero => rfl
  | succ n =>
    have hskip : skipSpace (rest.length + 2) (' ' :: rest) = skipSpace (rest.length + 1) rest := rfl
    rw [lexemes?, lexemes?, List.length_cons, hskip]

/-- The text has no quotes, and is cut into the given tokens however many are allowed beyond its
length. -/
structure Lexes (cs : List Char) (ts : List Token) : Prop where
  quiet : '"' ∉ cs ∧ '\'' ∉ cs
  runs : ∀ n, cs.length < n → lexemes? n cs = some (ts.map .token)

namespace Lexes

variable {ts : List Token}

theorem nil : Lexes [] [] where
  quiet := by simp
  runs n hn := by
    cases n with
    | zero => cases hn
    | succ n => rfl

theorem space (h : Lexes cs ts) : Lexes (' ' :: cs) ts where
  quiet := by simpa using h.quiet
  runs n hn := by
    rw [lexemes?_space, h.runs n (Nat.lt_of_succ_lt hn)]

/-- One round takes a token, and shortens the text by a character at least. -/
theorem leaf (hquiet : '"' ∉ c :: rest ∧ '\'' ∉ c :: rest) (hspace : isSpace c = false)
    (hother : opensOther c = false) (hleaf : leaf? (c :: rest) = some (t, u))
    (hlength : u.length ≤ rest.length) (h : Lexes u ts) : Lexes (c :: rest) (t :: ts) where
  quiet := hquiet
  runs n hn := by
    cases n with
    | zero => cases hn
    | succ n =>
      have hu : u.length < n := by
        rw [List.length_cons] at hn
        omega
      rw [lexemes?_of_leaf? hspace hother hleaf, h.runs n hu]
      rfl

/-- A mark in front of a text. -/
theorem mark (hc : IsStructure c) (h : Lexes cs ts) :
    Lexes (c :: cs) (.mark c (startsWithMark cs) :: ts) := by
  have hleaf := leaf?_of_isStructure h.quiet hc
  have hquiet : '"' ∉ c :: cs ∧ '\'' ∉ c :: cs := by
    rcases hc with rfl | rfl | rfl <;> simpa using h.quiet
  refine leaf hquiet ?_ ?_ hleaf (Nat.le_refl _) h
  · rcases hc with rfl | rfl | rfl <;> decide
  · rcases hc with rfl | rfl | rfl <;> decide

theorem quiet_of_isIdentifier (hname : IsIdentifier name) :
    '"' ∉ name.toList ∧ '\'' ∉ name.toList := by
  have quiet : ∀ {body : List Char}, Text.isIdentifier body = true → '"' ∉ body ∧ '\'' ∉ body := by
    intro body hbody
    have hall := Text.continue_of_isIdentifier hbody
    exact ⟨fun hm => absurd (hall _ hm) (by decide), fun hm => absurd (hall _ hm) (by decide)⟩
  rcases hname with ⟨hplain, -⟩ | ⟨body, hraw, hbody, -⟩
  · exact quiet hplain
  · rw [hraw]
    simpa using quiet hbody

theorem word (hname : IsIdentifier name) (hu : EndsName u) (h : Lexes u ts) :
    ∃ w : Word, w.text = name ∧ Lexes (name.toList ++ u) (.word w :: ts) := by
  have hquiet : '"' ∉ name.toList ++ u ∧ '\'' ∉ name.toList ++ u := by
    have hfree := quiet_of_isIdentifier hname
    simp [hfree, h.quiet]
  obtain ⟨w, htext, hleaf⟩ := leaf?_append hname hu hquiet
  obtain ⟨c, rest, hcs, hstart⟩ := exists_start hname
  rw [hcs, List.cons_append] at hquiet hleaf ⊢
  refine ⟨w, htext, leaf hquiet ?_ ?_ hleaf (by simp) h⟩
  -- a letter is no blank, and opens neither a comment nor a group
  · have hmem := Text.toNat_not_mem_spacePoints (Text.isIdentifierContinue_of_start hstart)
    simp only [Text.spacePoints, List.mem_cons, List.not_mem_nil] at hmem
    rw [isSpace, Text.not_isBlank_of_continue (Text.isIdentifierContinue_of_start hstart)]
    simp only [Bool.false_or, Bool.or_eq_false_iff, beq_eq_false_iff_ne, ne_eq]
    omega
  · have hnone : ∀ d ∈ "/()[]\x7b\x7d".toList, Text.isIdentifierStart d = false := by decide
    rw [opensOther, List.contains_eq_mem, decide_eq_false_iff_not]
    intro hmem
    rw [hnone c hmem] at hstart
    cases hstart

end Lexes

end Lexer

end Source

end EndpointDocs
