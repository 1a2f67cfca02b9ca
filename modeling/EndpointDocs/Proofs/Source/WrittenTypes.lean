import EndpointDocs.Proofs.Source.Lexing
import EndpointDocs.Proofs.Source.Repetition
import EndpointDocs.Proofs.TypeHeight

/-!
# Reading undoes writing

    TypeExpr ──display──▶ text ──tokens?──▶ List Token ──read──▶ TypeExpr

A written type whose names are identifiers is read back as the type. Its text is cut into the tokens
that spell the type (`tokens?_displayChars`), and the general reader of types, which first has to
tell many forms of types and of arguments apart, takes exactly these and returns the type
(`run_read`). The brackets that close lists of arguments run together in the text, but each is a
token of its own that only says whether another mark is right behind it; `Spells` leaves that open.
Main statement: `typeExpr?_display`.

The module goes along the arrows from left to right: tokens that spell a type, the lexer on the text
of a type, the reader on such tokens, and last the trimming that the text is put through first.
-/

namespace EndpointDocs

open Source

namespace TypeExpr

/-- Every name in the type is an identifier. -/
def HasIdentifiers (t : TypeExpr) : Prop := ∀ u ∈ t.parts, IsIdentifier u.name

/-! ### Names and tokens of a type

A type has identifiers if its own name is one and its arguments have them, so that an induction over
types can carry the condition along. -/

theorem hasIdentifiers_iff {t : TypeExpr} :
    t.HasIdentifiers ↔ IsIdentifier t.name ∧ ∀ a ∈ t.args, a.HasIdentifiers := by
  constructor
  · intro h
    exact ⟨h t (self_mem_parts t), fun a ha u hu => h u (mem_parts.2 (.inr ⟨a, ha, hu⟩))⟩
  · rintro ⟨hname, hargs⟩ u hu
    rcases mem_parts.1 hu with rfl | ⟨a, ha, hu⟩
    · exact hname
    · exact hargs a ha u hu

end TypeExpr

namespace Source

mutual

/-- The tokens of a type; a closing bracket may have another mark right behind it or not. -/
def Spells : TypeExpr → List Token → Prop
  | ⟨name, []⟩, ts => ∃ w : Word, w.text = name ∧ ts = [.word w]
  | ⟨name, a :: as⟩, ts => ∃ (w : Word) (us vs : List Token), w.text = name ∧
      ts = .word w :: .mark '<' false :: (us ++ vs) ∧ Spells a us ∧ SpellsRest as vs

/-- The tokens of the arguments behind the first one. -/
def SpellsRest : List TypeExpr → List Token → Prop
  | [], ts => ∃ joint, ts = [.mark '>' joint]
  | a :: as, ts => ∃ us vs, ts = .mark ',' false :: (us ++ vs) ∧ Spells a us ∧ SpellsRest as vs

end

namespace Lexer

variable {u : List Char} {ts : List Token}

/-! ### Cutting the text

The lexer is followed from the end of the text to its start: `Lexes u ts` says what the rest of the
text is cut into, and each character or name in front of it adds its tokens. So the induction over a
type has the text and tokens behind it as free parts. -/

/-- Behind an argument comes a bracket or a comma, and neither goes on with a name. -/
theorem endsName_displayRest (as : List TypeExpr) (u : List Char) :
    EndsName (TypeExpr.displayRest as ++ u) := by
  intro c hc
  cases as with
  | nil => exact .inr (.inr (Option.some.inj hc).symm)
  | cons a as => exact .inr (.inl (Option.some.inj hc).symm)

theorem exists_start_displayChars {t : TypeExpr} (ht : t.HasIdentifiers) :
    ∃ c rest, t.displayChars = c :: rest ∧ Text.isIdentifierStart c = true := by
  obtain ⟨name, args⟩ := t
  obtain ⟨c, rest, hcs, hstart⟩ := exists_start (TypeExpr.hasIdentifiers_iff.1 ht).1
  cases args <;> simp_all [TypeExpr.displayChars]

/-- A bracket in front of a type is not joined to what follows. -/
theorem startsWithMark_displayChars {t : TypeExpr} (ht : t.HasIdentifiers) (u : List Char) :
    startsWithMark (t.displayChars ++ u) = false := by
  obtain ⟨c, rest, hcs, hstart⟩ := exists_start_displayChars ht
  rw [hcs]
  exact startsWithMark_of_start hstart _

mutual

/-- The text of a type is cut into the tokens of the type. -/
theorem lexes_displayChars : (t : TypeExpr) → t.HasIdentifiers → ∀ {u ts}, EndsName u →
    Lexes u ts → ∃ us, Spells t us ∧ Lexes (t.displayChars ++ u) (us ++ ts)
  | ⟨name, []⟩, ht, _, _, hu, h => by
    obtain ⟨w, hw, hlexes⟩ := Lexes.word (TypeExpr.hasIdentifiers_iff.1 ht).1 hu h
    exact ⟨[.word w], ⟨w, hw, rfl⟩, by simpa [TypeExpr.displayChars] using hlexes⟩
  | ⟨name, a :: as⟩, ht, u, ts, hu, h => by
    obtain ⟨hname, hargs⟩ := TypeExpr.hasIdentifiers_iff.1 ht
    obtain ⟨ha, has⟩ := List.forall_mem_cons.1 hargs
    obtain ⟨vs, hvs, hrest⟩ := lexes_displayRest as has h
    obtain ⟨us, hus, hfirst⟩ := lexes_displayChars a ha (endsName_displayRest as u) hrest
    -- from the back: the arguments, the bracket in front of them, the name
    have hopen := Lexes.mark (c := '<') (.inl rfl) hfirst
    rw [startsWithMark_displayChars ha] at hopen
    have hends : EndsName ('<' :: (a.displayChars ++ (TypeExpr.displayRest as ++ u))) :=
      fun c hc => .inl (Option.some.inj hc).symm
    obtain ⟨w, hw, hlexes⟩ := Lexes.word hname hends hopen
    refine ⟨_, ⟨w, us, vs, hw, rfl, hus, hvs⟩, ?_⟩
    simpa [TypeExpr.displayChars] using hlexes

theorem lexes_displayRest : (as : List TypeExpr) → (∀ a ∈ as, a.HasIdentifiers) → ∀ {u ts},
    Lexes u ts → ∃ vs, SpellsRest as vs ∧ Lexes (TypeExpr.displayRest as ++ u) (vs ++ ts)
  | [], _, _, _, h => ⟨_, ⟨_, rfl⟩, Lexes.mark (.inr (.inr rfl)) h⟩
  | a :: as, has, u, ts, h => by
    obtain ⟨ha, has⟩ := List.forall_mem_cons.1 has
    obtain ⟨vs, hvs, hrest⟩ := lexes_displayRest as has h
    obtain ⟨us, hus, hfirst⟩ := lexes_displayChars a ha (endsName_displayRest as u) hrest
    -- the text has a blank behind the comma, which leaves no token
    have hcomma := Lexes.mark (c := ',') (.inr (.inl rfl)) hfirst.space
    refine ⟨_, ⟨us, vs, rfl, hus, hvs⟩, ?_⟩
    simpa [TypeExpr.displayRest, startsWithMark, isMark] using hcomma

end

/-- Tokens outside of groups are collected as they are. -/
theorem nest?_tokens (ts : List Token) (stack : List (Delimiter × List Token)) (done : List Token)
    (rest : List Lexeme) :
    nest? (ts.map .token ++ rest) stack done = nest? rest stack (ts.reverse ++ done) := by
  induction ts generalizing done with
  | nil => rfl
  | cons t ts ih =>
    rw [List.map_cons, List.cons_append, nest?, ih, List.reverse_cons, List.append_assoc]
    rfl

end Lexer

/-- The text of a type has the tokens of the type. -/
theorem tokens?_displayChars {t : TypeExpr} (ht : t.HasIdentifiers) :
    ∃ ts, Spells t ts ∧ tokens? t.displayChars = some ts := by
  have hnothing : Lexer.EndsName [] := fun c hc => nomatch hc
  obtain ⟨ts, hts, hlexes⟩ := Lexer.lexes_displayChars t ht hnothing .nil
  rw [List.append_nil, List.append_nil] at hlexes
  refine ⟨ts, hts, ?_⟩
  have hmark : Lexer.withoutMark t.displayChars = t.displayChars := by
    obtain ⟨c, rest, hcs, hstart⟩ := Lexer.exists_start_displayChars ht
    -- a byte order mark is among the blank characters, and starts no name
    have hmem := Text.toNat_not_mem_spacePoints (Text.isIdentifierContinue_of_start hstart)
    simp only [Text.spacePoints, List.mem_cons, List.not_mem_nil] at hmem
    rw [hcs, Lexer.withoutMark, if_neg (by omega)]
  have hnest := Lexer.nest?_tokens ts [] [] []
  rw [List.append_nil, List.append_nil] at hnest
  rw [tokens?, hmark, hlexes.runs _ (Nat.lt_succ_self _), Option.bind_some, hnest, Lexer.nest?,
    List.reverse_reverse]

/-! ## Reading

The reader of types tries its forms one after another by the tokens ahead. For a name that is no
keyword all tests for other forms fail, and what may stand behind a type inside of another one, a
comma or a closing bracket, does not let a path go on. -/

/-- What may stand behind a type among the tokens of another one. -/
def EndsType : List Token → Prop
  | [] => True
  | .mark c _ :: _ => c = ',' ∨ c = '>'
  | _ => False

/-- No mark that starts with another character is ahead. -/
theorem atMark_of_endsType {s : String} {ts : List Token} (hts : EndsType ts)
    (hs : ∀ c ∈ s.toList.head?, c ≠ ',' ∧ c ≠ '>') (hne : s.toList ≠ []) : atMark s ts = false := by
  obtain ⟨c, cs, hcs⟩ := List.exists_cons_of_ne_nil hne
  obtain ⟨hcomma, hclose⟩ := hs c (by rw [hcs]; rfl)
  rw [atMark, hcs]
  unfold EndsType at hts
  split at hts
  · cases cs <;> rfl
  · next d joint rest =>
    cases cs with
    | nil => rcases hts with rfl | rfl <;> simp [atMarks, *]
    | cons c' cs => cases joint <;> rcases hts with rfl | rfl <;> simp [atMarks, *]
  · cases hts

namespace TypeSyntax

variable {g : Grammar} {w : Word} {ts : List Token}

theorem not_mem_keywords {name : String} (h : IsIdentifier name) : name ∉ keywords := by
  rcases h with ⟨-, hfree⟩ | ⟨body, hraw, -, -⟩
  · exact hfree
  -- a raw name has a sign in it that no keyword has
  · have hsign : ∀ k ∈ keywords, '#' ∉ k.toList := by decide
    intro hmem
    exact hsign name hmem (by simp [hraw])

theorem atWord_eq_false (k : String) (ts : List Token) (hw : IsIdentifier w.text)
    (hk : k ∈ keywords) : atWord k (.word w :: ts) = false := by
  rw [atWord, beq_eq_false_iff_ne]
  rintro rfl
  exact not_mem_keywords hw hk

theorem atWords_eq_false (ks : List String) (ts : List Token) (hw : IsIdentifier w.text)
    (hks : ks ⊆ keywords) : atWords ks (.word w :: ts) = false := by
  rw [atWords, List.any_eq_false]
  intro k hk
  rw [atWord_eq_false k ts hw (hks hk)]
  exact Bool.false_ne_true

theorem atIdentifier_word (hw : IsIdentifier w.text) : atIdentifier (.word w :: ts) = true := by
  simp [atIdentifier, not_mem_keywords hw]

theorem atPathWord_word (hw : IsIdentifier w.text) : atPathWord (.word w :: ts) = true := by
  rw [atPathWord, atIdentifier_word hw, Bool.true_or]

/-- A name without arguments. -/
theorem run_segment_bare (hw : IsIdentifier w.text) (hts : EndsType ts) :
    (segment g false).run (.word w :: ts) = some (⟨⟨w.text, []⟩, false, false⟩, ts) := by
  have hstart := atWords_eq_false ["super", "self", "crate", "try"] ts hw (by decide)
  have hself := atWord_eq_false "Self" ts hw (by decide)
  have hopen := atMark_of_endsType (s := "<") hts (by decide) (by decide)
  have hcolons := atMark_of_endsType (s := "::") hts (by decide) (by decide)
  simp [segment, ahead, hstart, hself, hopen, hcolons, atIdentifier_word hw, identifier, anyWord,
    expect]

/-- A name with arguments, which start with a name themselves. -/
theorem run_segment_arguments {v : Word} {us : List Token} {args : List (Option TypeExpr)}
    (hw : IsIdentifier w.text)
    (hargs : (angleArguments g).run (.mark '<' false :: .word v :: ts) = some (args, us)) :
    (segment g false).run (.word w :: .mark '<' false :: .word v :: ts) =
      some (⟨⟨w.text, args.filterMap id⟩, true, !args.isEmpty⟩, us) := by
  have hstart := atWords_eq_false ["super", "self", "crate", "try"]
    (.mark '<' false :: .word v :: ts) hw (by decide)
  have hself := atWord_eq_false "Self" (.mark '<' false :: .word v :: ts) hw (by decide)
  simp [segment, ahead, hstart, hself, atMark, atMarks, atIdentifier_word hw, identifier, anyWord,
    expect, hargs]

theorem run_path {s : Segment} {us : List Token} (hus : EndsType us)
    (hsegment : (segment g false).run (.word w :: ts) = some (s, us)) :
    (path g false).run (.word w :: ts) =
      some (⟨s.meaning, true, !s.bracketed, !s.filled, false⟩, us) := by
  have hcolons := atMark_of_endsType (s := "::") hus (by decide) (by decide)
  have hleading : atMark "::" (.word w :: ts) = false := rfl
  simp [path, moreSegments, mark?, hleading, hsegment, repeated, repeatUpTo, hcolons]

/-- A type that starts with a name is a path of this one segment. -/
theorem run_read_of_segment {s : Segment} {sums : Bool} {us : List Token}
    (hw : IsIdentifier w.text) (hus : EndsType us)
    (hsegment : (segment g false).run (.word w :: ts) = some (s, us)) :
    (TypeSyntax.read g sums).run (.word w :: ts) = some (⟨s.meaning, .name⟩, us) := by
  have hfor := atWord_eq_false "for" ts hw (by decide)
  have hfunction := atWords_eq_false ["fn", "unsafe", "extern"] ts hw (by decide)
  have hbang := atMark_of_endsType (s := "!") hus (by decide) (by decide)
  have hplus := atMark_of_endsType (s := "+") hus (by decide) (by decide)
  have hqualified : atMark "<" (.word w :: ts) = false := rfl
  simp [TypeSyntax.read, forLifetimes?, word?, hfor, hfunction, atGroup, atPathWord_word hw,
    fromPath, qualifiedPath, mark?, hqualified, run_path hus hsegment, hbang, hplus]

/-- An argument that is a name, perhaps with arguments of its own, is a type. -/
theorem run_argument {t : TypeExpr} {us : List Token} (hw : IsIdentifier w.text) (hus : EndsType us)
    (hread : (g (.type true)).run (.word w :: ts) = some (⟨t, .name⟩, us)) :
    (argument g).run (.word w :: ts) = some (some t, us) := by
  have hlifetime : atLifetime (.word w :: ts) = false := rfl
  -- the two words that are literals are keywords
  have hliteral : atLiteral (.word w :: ts) = false := by
    have htrue := atWord_eq_false "true" ts hw (by decide)
    have hfalse := atWord_eq_false "false" ts hw (by decide)
    simp [atWord] at htrue hfalse
    simp [atLiteral, htrue, hfalse]
  have hbraces : atGroup .braces (.word w :: ts) = false := rfl
  have hbound := atMark_of_endsType (s := "=") hus (by decide) (by decide)
  have hbounded := atMark_of_endsType (s := ":") hus (by decide) (by decide)
  simp [argument, hlifetime, hliteral, hbraces, hread, mark?, hbound, hbounded]

/-! ## Lists of arguments

The list ends at the closing bracket and nowhere before. The number of rounds that the reader allows
itself is that of the tokens, and there are more of these than arguments. -/

/-- The tokens of a type start with its name. -/
theorem exists_word_of_spells {t : TypeExpr} (h : Spells t ts) :
    ∃ (w : Word) (us : List Token), w.text = t.name ∧ ts = .word w :: us := by
  obtain ⟨name, _ | ⟨a, as⟩⟩ := t
  · obtain ⟨w, hw, rfl⟩ := h
    exact ⟨w, [], hw, rfl⟩
  · obtain ⟨w, us, vs, hw, rfl, -⟩ := h
    exact ⟨w, _, hw, rfl⟩

theorem length_lt_of_spellsRest {as : List TypeExpr} (h : SpellsRest as ts) :
    as.length < ts.length := by
  induction as generalizing ts with
  | nil =>
    obtain ⟨joint, rfl⟩ := h
    exact Nat.zero_lt_one
  | cons a as ih =>
    obtain ⟨us, vs, rfl, -, hvs⟩ := h
    have := ih hvs
    simp only [List.length_cons, List.length_append]
    omega

/-- Reading with the grammar gives the type from its tokens, whatever ends it. -/
def ReadsType (g : Grammar) (t : TypeExpr) : Prop :=
  ∀ ts rest, Spells t ts → EndsType rest →
    (g (.type true)).run (ts ++ rest) = some (⟨t, .name⟩, rest)

theorem run_argument_of_reads {t : TypeExpr} {rest : List Token}
    (hread : ReadsType g t ∧ IsIdentifier t.name) (hts : Spells t ts) (hrest : EndsType rest) :
    (argument g).run (ts ++ rest) = some (some t, rest) := by
  obtain ⟨w, us, hw, rfl⟩ := exists_word_of_spells hts
  exact run_argument (hw ▸ hread.2) hrest (hread.1 _ _ hts hrest)

/-- So no type is mistaken for the end of the list. -/
theorem not_atMark_close {t : TypeExpr} (hts : Spells t ts) (rest : List Token) :
    atMark ">" (ts ++ rest) = false := by
  obtain ⟨w, us, -, rfl⟩ := exists_word_of_spells hts
  rfl

/-- The arguments up to the closing bracket. The induction is on those behind the first one. -/
theorem run_arguments {as : List TypeExpr} {a : TypeExpr} {us vs : List Token} {n : Nat}
    (rest : List Token) (hread : ∀ b ∈ a :: as, ReadsType g b ∧ IsIdentifier b.name)
    (hus : Spells a us) (hvs : SpellsRest as vs) (hn : as.length + 1 < n) :
    ∃ joint, (repeatUpTo (nextItem "," (atMark ">") (argument g)) n).run (us ++ (vs ++ rest)) =
      some ((a :: as).map some, .mark '>' joint :: rest) := by
  induction as generalizing a us vs n with
  | nil =>
    -- the last argument ends at the closing bracket
    obtain ⟨joint, rfl⟩ := hvs
    obtain ⟨m, rfl⟩ : ∃ m, n = m + 2 := ⟨n - 2, by simp only [List.length_nil] at hn; omega⟩
    have hends : EndsType (.mark '>' joint :: rest) := .inr rfl
    have hlast := run_nextItem_last "," (not_atMark_close hus _)
      (run_argument_of_reads (hread a List.mem_cons_self) hus hends) rfl
    have hstop : (nextItem "," (atMark ">") (argument g)).run (.mark '>' joint :: rest) =
        some (none, .mark '>' joint :: rest) := run_nextItem_stop "," rfl
    exact ⟨joint, run_repeatUpTo_more hlast (run_repeatUpTo_stop hstop)⟩
  | cons b bs ih =>
    obtain ⟨ha, hmore⟩ := List.forall_mem_cons.1 hread
    -- any other one ends at a comma
    obtain ⟨us', vs', rfl, hus', hvs'⟩ := hvs
    obtain ⟨m, rfl⟩ : ∃ m, n = m + 1 := ⟨n - 1, by omega⟩
    have hends : EndsType (.mark ',' false :: (us' ++ (vs' ++ rest))) := .inl rfl
    have hfirst := run_nextItem_more "," (not_atMark_close hus _)
      (run_argument_of_reads ha hus hends) rfl rfl
    obtain ⟨joint, hrest⟩ := ih hmore hus' hvs' (Nat.lt_of_succ_lt_succ hn)
    refine ⟨joint, ?_⟩
    simp only [List.cons_append, List.append_assoc]
    exact run_repeatUpTo_more hfirst hrest

theorem run_angleArguments {as : List TypeExpr} {a : TypeExpr} {us vs : List Token}
    (rest : List Token) (hread : ∀ b ∈ a :: as, ReadsType g b ∧ IsIdentifier b.name)
    (hus : Spells a us) (hvs : SpellsRest as vs) :
    (angleArguments g).run (.mark '<' false :: (us ++ (vs ++ rest))) =
      some ((a :: as).map some, rest) := by
  have hn : as.length + 1 < (us ++ (vs ++ rest)).length + 1 := by
    obtain ⟨w, us', -, rfl⟩ := exists_word_of_spells hus
    have := length_lt_of_spellsRest hvs
    simp only [List.cons_append, List.length_cons, List.length_append]
    omega
  obtain ⟨joint, hargs⟩ := run_arguments rest hread hus hvs hn
  have hcolons : atMark "::" (.mark '<' false :: (us ++ (vs ++ rest))) = false := rfl
  have hopen : (mark "<").run (.mark '<' false :: (us ++ (vs ++ rest))) =
      some ((), us ++ (vs ++ rest)) := rfl
  have hclose : (mark ">").run (.mark '>' joint :: rest) = some ((), rest) := rfl
  simp [angleArguments, mark?, hcolons, hopen, separatedUntil_eq, run_repeated_of hargs, hclose]

/-- An argument is shorter than the list it is in. The depth of nesting is bounded by the length of
the text, which this lemma lets go down with the type. -/
theorem length_displayChars_le {as : List TypeExpr} {a : TypeExpr} (ha : a ∈ as) :
    a.displayChars.length ≤ (TypeExpr.displayRest as).length := by
  induction as with
  | nil => cases ha
  | cons b bs ih =>
    simp only [TypeExpr.displayRest, List.length_cons, List.length_append]
    rcases List.mem_cons.1 ha with rfl | ha
    · omega
    · have := ih ha
      omega

mutual

/-- A type is read from its tokens if as many parts may nest as its text has characters. -/
theorem run_read : (t : TypeExpr) → t.HasIdentifiers → ∀ {n : Nat} {sums : Bool} {ts rest},
    t.displayChars.length ≤ n → Spells t ts → EndsType rest →
      (TypeSyntax.read (Grammar.upTo n) sums).run (ts ++ rest) = some (⟨t, .name⟩, rest)
  | ⟨name, []⟩, ht, n, sums, ts, rest, _, hts, hrest => by
    have hname := (TypeExpr.hasIdentifiers_iff.1 ht).1
    obtain ⟨w, rfl, rfl⟩ := hts
    exact run_read_of_segment hname hrest (run_segment_bare hname hrest)
  | ⟨name, a :: as⟩, ht, n, sums, ts, rest, hn, hts, hrest => by
    obtain ⟨hname, hargs⟩ := TypeExpr.hasIdentifiers_iff.1 ht
    obtain ⟨w, us, vs, rfl, rfl, hus, hvs⟩ := hts
    simp only [TypeExpr.displayChars, List.length_append, List.length_cons] at hn
    -- the arguments are read by the grammar of the parts inside
    obtain ⟨m, rfl⟩ : ∃ m, n = m + 1 := ⟨n - 1, by omega⟩
    have hlength : ∀ b ∈ a :: as, b.displayChars.length ≤ m := by
      intro b hb
      rcases List.mem_cons.1 hb with rfl | hb
      · omega
      · have := length_displayChars_le hb
        omega
    have hread := readsType_upTo (a :: as) hargs hlength
    have harguments := run_angleArguments rest hread hus hvs
    obtain ⟨v, us', -, rfl⟩ := exists_word_of_spells hus
    have hsegment := run_segment_arguments hname harguments
    simpa using run_read_of_segment hname hrest hsegment

/-- The arguments of a type are read by the grammar one level further down. In the form that lists
of arguments ask for. -/
theorem readsType_upTo : (ts : List TypeExpr) → (∀ t ∈ ts, t.HasIdentifiers) → ∀ {m : Nat},
    (∀ t ∈ ts, t.displayChars.length ≤ m) →
      ∀ t ∈ ts, ReadsType (Grammar.upTo (m + 1)) t ∧ IsIdentifier t.name
  | [], _, _, _ => fun _ ht => nomatch ht
  | t :: ts, hts, m, hm => by
    obtain ⟨ht, hts⟩ := List.forall_mem_cons.1 hts
    obtain ⟨hlength, hm⟩ := List.forall_mem_cons.1 hm
    have hrest := readsType_upTo ts hts hm
    refine List.forall_mem_cons.2 ⟨⟨?_, (TypeExpr.hasIdentifiers_iff.1 ht).1⟩, hrest⟩
    exact fun us rest hus hrest => run_read t ht hlength hus hrest

end

end TypeSyntax

/-! ## Whole texts

A text is trimmed before it is read. A written type starts with a letter and ends with a letter or a
bracket, so there is nothing to trim. -/

theorem exists_displayRest_eq (as : List TypeExpr) :
    ∃ cs, TypeExpr.displayRest as = cs ++ ['>'] := by
  induction as with
  | nil => exact ⟨[], rfl⟩
  | cons a as ih =>
    obtain ⟨cs, hcs⟩ := ih
    exact ⟨',' :: ' ' :: (a.displayChars ++ cs), by simp [TypeExpr.displayRest, hcs]⟩

/-- A written type ends in a character of a name or in a bracket. -/
theorem not_isBlank_getLast {t : TypeExpr} (ht : t.HasIdentifiers) :
    ∀ c ∈ t.displayChars.getLast?, Text.isBlank c = false := by
  intro c hc
  obtain ⟨name, _ | ⟨a, as⟩⟩ := t
  · have hmem : c ∈ name.toList := List.mem_of_getLast? hc
    rcases (TypeExpr.hasIdentifiers_iff.1 ht).1 with ⟨hplain, -⟩ | ⟨body, hraw, hbody, -⟩
    · exact Text.not_isBlank_of_continue (Text.continue_of_isIdentifier hplain c hmem)
    · rw [hraw] at hmem
      rcases List.mem_cons.1 hmem with rfl | hmem
      · rfl
      · rcases List.mem_cons.1 hmem with rfl | hmem
        · rfl
        · exact Text.not_isBlank_of_continue (Text.continue_of_isIdentifier hbody c hmem)
  · obtain ⟨cs, hcs⟩ := exists_displayRest_eq as
    simp only [TypeExpr.displayChars, hcs, ← List.append_assoc, ← List.cons_append,
      List.getLast?_concat, Option.mem_def, Option.some.injEq] at hc
    subst hc
    rfl

theorem trimChars_displayChars {t : TypeExpr} (ht : t.HasIdentifiers) :
    Text.trimChars t.displayChars = t.displayChars := by
  have hstart : Text.dropBlanks t.displayChars = t.displayChars := by
    obtain ⟨c, rest, hcs, hc⟩ := Lexer.exists_start_displayChars ht
    refine Text.dropBlanks_of_head fun d rest' h => ?_
    cases hcs.symm.trans h
    exact Text.not_isBlank_of_continue (Text.isIdentifierContinue_of_start hc)
  have hend : Text.dropBlanks t.displayChars.reverse = t.displayChars.reverse := by
    refine Text.dropBlanks_of_head fun d rest h => ?_
    refine not_isBlank_getLast ht d ?_
    rw [← List.head?_reverse, h]
    rfl
  rw [Text.trimChars, hstart, hend, List.reverse_reverse]

/-- A type whose names are identifiers is read back from its text, and what a text is read as is
written so that it is read as the same again. -/
theorem typeExpr?_display {t : TypeExpr} (ht : t.HasIdentifiers) :
    typeExpr? t.display = some t ∧
      ∀ text, typeExpr? text = some t → typeExpr? t.display = typeExpr? text := by
  have hread : typeExpr? t.display = some t := by
    obtain ⟨ts, hts, htokens⟩ := tokens?_displayChars ht
    have hrun : (TypeSyntax.read (Grammar.upTo (depthFor t.displayChars.length)) true).run
        (ts ++ []) = some (⟨t, .name⟩, []) :=
      TypeSyntax.run_read t ht (by unfold depthFor; omega) hts trivial
    rw [List.append_nil, StateT.run] at hrun
    have hall : readAll? (TypeSyntax.read (Grammar.upTo (depthFor t.displayChars.length)) true) ts =
        some ⟨t, .name⟩ := by
      rw [readAll?, hrun]
    rw [typeExpr?, TypeExpr.display, String.toList_ofList, trimChars_displayChars ht]
    simp only [htokens, Option.bind_some, hall, Option.map_some]
  exact ⟨hread, fun text htext => hread.trans htext.symm⟩

/-- Lists of arguments that close at one place, around a keyword as a raw name. -/
def nestedLists : TypeExpr :=
  ⟨"HashMap", [⟨"String", []⟩, ⟨"Vec", [⟨"Option", [⟨"r#type", []⟩]⟩]⟩]⟩

theorem typeExpr?_nestedLists :
    nestedLists.HasIdentifiers ∧
      typeExpr? "HashMap<String, Vec<Option<r#type>>>" = some nestedLists := by
  have hraw : IsIdentifier "r#type" := .inr ⟨"type".toList, by decide, by decide, by decide⟩
  have hnames : nestedLists.HasIdentifiers := by
    intro u hu
    simp only [nestedLists, TypeExpr.parts, TypeExpr.partsOfAll, List.append_nil, List.cons_append,
      List.nil_append, List.mem_cons, List.not_mem_nil, or_false] at hu
    rcases hu with rfl | rfl | rfl | rfl | rfl
    · exact .inl (by decide)
    · exact .inl (by decide)
    · exact .inl (by decide)
    · exact .inl (by decide)
    · exact hraw
  have hdisplay : nestedLists.display = "HashMap<String, Vec<Option<r#type>>>" := by decide
  refine ⟨hnames, ?_⟩
  rw [← hdisplay]
  exact (typeExpr?_display hnames).1

end Source

end EndpointDocs
