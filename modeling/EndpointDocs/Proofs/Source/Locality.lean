import EndpointDocs.Proofs.Source.Repetition

/-!
# Reading in front of a comma

A list of settings does not say where the value of one of them ends: it ends where the grammar of
expressions ends it. That grammar decides by the tokens ahead, so it has to be shown that a comma
ends whatever the end of the tokens ends. A reader is local if it reads the same with a comma behind
its tokens, and whatever follows this comma, as without them.

This module has one lemma for each way in which readers are built. A reader looks at the tokens
ahead by a test (`Sees`), so the lemmas for readers that do are about functions of these tokens
(`Looks`).

The modules behind this one go through the grammar of types, expressions, patterns and items with
these lemmas alone. A part of the grammar that changes needs a new proof of its own lemma there, and
none here as long as it is built in the same ways.
-/

namespace EndpointDocs.Source

variable {α β : Type} {tail ts : List Token} {n m : Nat}

/-- The tokens start with a comma. -/
def AtComma (tail : List Token) : Prop := ∃ joint more, tail = .mark ',' joint :: more

/-- What `r` leaves of the tokens is an end of them, and `r'` reads the same with more tokens behind
them. -/
-- `r'` may differ from `r`: the bound of a repetition depends on the number of tokens
def Agree (tail : List Token) (r r' : Reader α) (ts : List Token) : Prop :=
  ∀ a us, r.run ts = some (a, us) → us <:+ ts ∧ r'.run (ts ++ tail) = some (a, us ++ tail)

/-- What the reader makes of the tokens, which are also given to it, is the same in front of a
comma. -/
def Looks (f : List Token → Reader α) : Prop :=
  ∀ tail, AtComma tail → ∀ ts, Agree tail (f ts) (f (ts ++ tail)) ts

/-- The reader reads the same in front of a comma as at the end of the tokens. -/
def Local (r : Reader α) : Prop := Looks fun _ => r

/-- Whenever the reader returns, it has taken a token. -/
def Takes (r : Reader α) : Prop := ∀ ts a us, r.run ts = some (a, us) → us.length < ts.length

/-- The same of a round, which is given the tokens, but only where a repetition goes on after it. -/
def Advances (step : List Token → Reader (Option α)) : Prop :=
  ∀ ts a us, (step ts).run ts = some (some a, us) → us.length < ts.length

/-! ## Tests of the tokens ahead

A reader decides by its tests, so these must not see the comma. Nor may tokens be taken that are not
there: with a comma behind them `skip n` would take that comma. Hence the number `n` in `Sees`,
which says how many tokens may be taken once the test has succeeded. It is `0` where nothing is
taken on the strength of the test. -/

/-- A comma behind the tokens does not change the test, and there are `n` tokens at least if it
succeeds. -/
structure Sees (p : List Token → Bool) (n : Nat) : Prop where
  append : ∀ tail, AtComma tail → ∀ ts, p (ts ++ tail) = p ts
  le_length : ∀ ts, p ts = true → n ≤ ts.length

namespace Sees

variable {p q : List Token → Bool}

/-- A test of the first token that a comma fails. -/
theorem of_first (hnil : p [] = false) (hcomma : ∀ joint more, p (.mark ',' joint :: more) = false)
    (hfirst : ∀ t ts, p (t :: ts) = p [t]) : Sees p 1 where
  append := by
    rintro _ ⟨joint, more, rfl⟩ ts
    cases ts with
    | nil => exact (hcomma joint more).trans hnil.symm
    | cons t ts => exact (hfirst t _).trans (hfirst t _).symm
  le_length ts h := by
    cases ts with
    | nil => exact absurd (hnil.symm.trans h) Bool.false_ne_true
    | cons t ts => exact Nat.le_add_left 1 _

-- tests of one token: no word, lifetime or group is a comma
theorem word {w : String} : Sees (atWord w) 1 :=
  of_first rfl (fun _ _ => rfl) fun t _ => by cases t <;> rfl

theorem anyWord : Sees atAnyWord 1 :=
  of_first rfl (fun _ _ => rfl) fun t _ => by cases t <;> rfl

theorem identifier : Sees atIdentifier 1 :=
  of_first rfl (fun _ _ => rfl) fun t _ => by cases t <;> rfl

theorem lifetime : Sees atLifetime 1 :=
  of_first rfl (fun _ _ => rfl) fun t _ => by cases t <;> rfl

theorem group {d : Delimiter} : Sees (atGroup d) 1 :=
  of_first rfl (fun _ _ => rfl) fun t _ => by cases t <;> rfl

theorem words {ws : List String} : Sees (atWords ws) 1 :=
  of_first (by simp [atWords, atWord]) (by simp [atWords, atWord]) fun t _ => by cases t <;> rfl

/-- A mark of several characters is several tokens joined. If only its start is there, the comma
could complete it in no other way than by being one of its characters. -/
theorem atMarks_append_comma {cs : List Char} (hcs : ',' ∉ cs) (htail : AtComma tail) :
    atMarks cs (ts ++ tail) = atMarks cs ts := by
  obtain ⟨joint, more, rfl⟩ := htail
  induction cs generalizing ts with
  | nil => simp [atMarks]
  | cons c cs ih =>
    obtain ⟨hc, hcs⟩ := not_or.1 (mt List.mem_cons.2 hcs)
    rcases ts with _ | ⟨t, ts⟩
    -- no token is left: the comma would have to be the first character
    · cases cs <;> cases joint <;> simp [atMarks, Ne.symm hc]
    · cases cs with
      | nil => cases t <;> rfl
      | cons d cs =>
        cases t with
        | mark e joined =>
          cases joined with
          | true => simp [atMarks, ih hcs]
          | false => rfl
        | _ => rfl

theorem length_le_of_atMarks {cs : List Char} (h : atMarks cs ts = true) :
    cs.length ≤ ts.length := by
  fun_induction atMarks cs ts <;> simp_all

theorem length_le_of_atMark {s : String} (h : atMark s ts = true) : s.length ≤ ts.length := by
  have hmarks : atMarks s.toList ts = true := h
  exact length_le_of_atMarks hmarks

theorem ne_nil_of_atMark {s : String} (hs : s.toList ≠ []) (h : atMark s ts = true) : ts ≠ [] :=
  List.ne_nil_of_length_pos
    (Nat.lt_of_lt_of_le (List.length_pos_iff.2 hs) (length_le_of_atMarks h))

theorem mark {s : String} (h : s.toList.contains ',' = false) : Sees (atMark s) s.length where
  append _ htail _ := atMarks_append_comma (by simpa using h) htail
  le_length _ hts := length_le_of_atMark hts

theorem anyMark {marks : List String} (h : marks.all (!·.toList.contains ',') = true) :
    Sees (fun ts => marks.any (atMark · ts)) 0 where
  append tail htail ts := by
    rw [Bool.eq_iff_iff, List.any_eq_true, List.any_eq_true]
    refine exists_congr fun s => and_congr_right fun hs => ?_
    have hcomma : s.toList.contains ',' = false := by simpa using List.all_eq_true.1 h s hs
    rw [(mark hcomma).append tail htail]
  le_length _ _ := Nat.zero_le _

/-- A number may carry a sign in front, so the test for a literal looks at two tokens and no
further. -/
theorem atLiteral_cons_cons (t u : Token) (ts : List Token) :
    atLiteral (t :: u :: ts) = atLiteral [t, u] := by
  cases t with
  | mark c joint =>
    by_cases hc : c = '-'
    · subst hc
      rcases u with _ | _ | _ | ⟨_ | _ | _⟩ | _ <;> rfl
    · simp [atLiteral, hc]
  | _ => rfl

theorem literal : Sees atLiteral 1 where
  append := by
    rintro _ ⟨joint, more, rfl⟩ ts
    rcases ts with _ | ⟨t, _ | ⟨u, ts⟩⟩
    · rfl
    -- one token: if it is the sign, a comma behind it is no number
    · cases t <;> simp [atLiteral]
    · exact (atLiteral_cons_cons t u _).trans (atLiteral_cons_cons t u _).symm
  le_length ts h := by
    cases ts with
    | nil => cases h
    | cons t ts => exact Nat.le_add_left 1 _

/-! ### Tests made of others

A test with a condition in it is seen through if its parts are. As many tokens are there as the part
says that must hold. -/

theorem const (b : Bool) : Sees (fun _ => b) 0 where
  append _ _ _ := rfl
  le_length _ _ := Nat.zero_le _

theorem not (h : Sees p n) : Sees (fun ts => !p ts) 0 where
  append tail htail ts := by rw [h.append tail htail]
  le_length _ _ := Nat.zero_le _

theorem and (hp : Sees p n) (hq : Sees q m) : Sees (fun ts => p ts && q ts) n where
  append tail htail ts := by rw [hp.append tail htail, hq.append tail htail]
  le_length ts hts := hp.le_length ts (Bool.and_eq_true_iff.1 hts).1

theorem and_right (hp : Sees p n) (hq : Sees q m) : Sees (fun ts => p ts && q ts) m where
  append tail htail ts := by rw [hp.append tail htail, hq.append tail htail]
  le_length ts hts := hq.le_length ts (Bool.and_eq_true_iff.1 hts).2

theorem or (hp : Sees p n) (hq : Sees q m) : Sees (fun ts => p ts || q ts) 0 where
  append tail htail ts := by rw [hp.append tail htail, hq.append tail htail]
  le_length _ _ := Nat.zero_le _

/-- Either test makes sure of the same number of tokens. -/
theorem or_same (hp : Sees p n) (hq : Sees q n) : Sees (fun ts => p ts || q ts) n where
  append := (or hp hq).append
  le_length ts hts := (Bool.or_eq_true_iff.1 hts).elim (hp.le_length ts) (hq.le_length ts)

theorem atMark_comma_append (t : Token) (ts us : List Token) :
    atMark "," (t :: ts ++ us) = atMark "," (t :: ts) := by
  cases t <;> rfl

/-- A mark that is not the start of a longer one. -/
theorem mark_not {s longer : String} (hs : s.toList.contains ',' = false)
    (hlonger : longer.toList.contains ',' = false) :
    Sees (fun ts => atMark s ts && !atMark longer ts) s.length :=
  .and (.mark hs) (.not (.mark hlonger))

/-- A test that succeeds at the end of the tokens has to succeed at a comma as well. -/
theorem end_or_comma (h : Sees p n) :
    Sees (fun ts => (ts.isEmpty || atMark "," ts) || p ts) 0 where
  append := by
    rintro tail htail (_ | ⟨t, ts⟩)
    · obtain ⟨joint, more, rfl⟩ := htail
      rfl
    · rw [h.append tail htail, atMark_comma_append]
      rfl
  le_length _ _ := Nat.zero_le _

/-- A test behind as many tokens as another test makes sure of. Both together make sure of all of
them. -/
theorem and_next (hp : Sees p n) (hq : Sees q m) :
    Sees (fun ts => p ts && q (ts.drop n)) (n + m) where
  append tail htail ts := by
    rw [hp.append tail htail]
    cases h : p ts with
    | false => rfl
    | true => rw [List.drop_append_of_le_length (hp.le_length ts h), hq.append tail htail]
  le_length ts hts := by
    obtain ⟨hpts, hqts⟩ := Bool.and_eq_true_iff.1 hts
    have hn := hp.le_length ts hpts
    have hm := hq.le_length _ hqts
    rw [List.length_drop] at hm
    omega

/-- The same where only the tokens of the first test are taken. -/
theorem and_behind (hp : Sees p n) (hq : Sees q m) :
    Sees (fun ts => p ts && q (ts.drop n)) n where
  append := (and_next hp hq).append
  le_length ts hts := hp.le_length ts (Bool.and_eq_true_iff.1 hts).1

theorem pathWord : Sees atPathWord 0 := or identifier words

end Sees

/-! ## Looking ahead

`Agree` is about one run, `Looks` and `Local` about all. What has to be proved of a reader is
`Local`; `Looks` comes up between a `get` and the branch that the tokens decide, and ends at a
branch that is `Local` again. -/

namespace Agree

variable {r r' : Reader α} {f f' : α → Reader β}

/-- The second parts have to agree only where the first one comes to. -/
theorem bind (hr : Agree tail r r' ts)
    (hf : ∀ a us, r.run ts = some (a, us) → Agree tail (f a) (f' a) us) :
    Agree tail (r >>= f) (r' >>= f') ts := by
  intro b us h
  rw [StateT.run_bind] at h
  obtain ⟨⟨a, vs⟩, ha, hb⟩ := Option.bind_eq_some_iff.1 h
  -- what the first part leaves, both sides leave; there the second part goes on
  obtain ⟨hvs, ha'⟩ := hr a vs ha
  obtain ⟨hus, hb'⟩ := hf a vs ha b us hb
  refine ⟨hus.trans hvs, ?_⟩
  rw [StateT.run_bind, ha']
  exact hb'

theorem pure (a : α) : Agree tail (Pure.pure a) (Pure.pure a) ts := by
  intro b us h
  cases h
  exact ⟨List.suffix_rfl, rfl⟩

theorem get {f f' : List Token → Reader α} (h : Agree tail (f ts) (f' (ts ++ tail)) ts) :
    Agree tail (get >>= f) (get >>= f') ts := h

/-- Only tokens in front of the comma are taken. -/
theorem skip (h : n ≤ ts.length) : Agree tail (Source.skip n) (Source.skip n) ts := by
  intro b us hus
  cases hus
  refine ⟨List.drop_suffix n ts, ?_⟩
  rw [← List.drop_append_of_le_length h]
  rfl

end Agree

namespace Looks

variable {f : List Token → Reader α} {r : Reader α} {p : List Token → Bool}

theorem const (hr : Local r) : Looks fun _ => r := hr

theorem ite (hp : Sees p n) (hr : Local r) (hf : Looks f) :
    Looks fun ts => if p ts then r else f ts := by
  intro tail htail ts
  dsimp only
  rw [hp.append tail htail]
  split
  · exact hr tail htail ts
  · exact hf tail htail ts

/-- A branch that starts with taking the tokens that were tested. -/
theorem take (hp : Sees p n) (hr : Local r) (hf : Looks f) :
    Looks fun ts => if p ts then (do skip n; r) else f ts := by
  intro tail htail ts
  dsimp only
  rw [hp.append tail htail]
  split
  · next h => exact (Agree.skip (hp.le_length ts h)).bind fun _ us _ => hr tail htail us
  · exact hf tail htail ts

theorem take_last {f : List Token → Reader Unit} (hp : Sees p n) (hf : Looks f) :
    Looks fun ts => if p ts then skip n else f ts := by
  intro tail htail ts
  dsimp only
  rw [hp.append tail htail]
  split
  · next h => exact .skip (hp.le_length ts h)
  · exact hf tail htail ts

end Looks

namespace Local

variable {r s : Reader α} {f : α → Reader β} {k : Reader β} {p : List Token → Bool}

/-! ### Readers made of others

The first two lemmas are what a caller takes from `Local`. All others follow the way a reader is
written: a proof that a reader is local reads as the reader does. -/

theorem suffix (hr : Local r) {a : α} {us : List Token} (h : r.run ts = some (a, us)) : us <:+ ts :=
  (hr [.mark ',' false] ⟨false, [], rfl⟩ ts a us h).1

theorem run_append (hr : Local r) (htail : AtComma tail) {a : α} {us : List Token}
    (h : r.run ts = some (a, us)) : r.run (ts ++ tail) = some (a, us ++ tail) :=
  (hr tail htail ts a us h).2

theorem pure (a : α) : Local (Pure.pure a) := fun _ _ _ => .pure a

theorem failure : Local (Alternative.failure : Reader α) := by
  intro tail _ ts a us h
  cases h

theorem bind (hr : Local r) (hf : ∀ a, Local (f a)) : Local (r >>= f) :=
  fun tail htail ts => (hr tail htail ts).bind fun a us _ => hf a tail htail us

theorem seq (hr : Local r) (hk : Local k) : Local (do let _ ← r; k) := hr.bind fun _ => hk

theorem ite {c : Prop} [Decidable c] (hr : Local r) (hs : Local s) :
    Local (if c then r else s) := by
  split
  · exact hr
  · exact hs

/-- A part that may be left out. -/
theorem when {c : Prop} [Decidable c] (hr : Local r) (hk : Local k) :
    Local (if c then (do let _ ← r; k) else k) := ite (hr.seq hk) hk

theorem look {f : List Token → Reader α} (hf : Looks f) : Local (get >>= f) :=
  fun tail htail ts => hf tail htail ts

/-- The tokens ahead are only looked at by a test, but more may be taken if it succeeds. -/
theorem ahead_look {f : Bool → Reader α} (hf : Looks fun ts => f (p ts)) :
    Local (do f (← Source.ahead p)) :=
  look hf

theorem ahead (hp : Sees p n) : Local (Source.ahead p) := by
  intro tail htail ts a us h
  cases h
  refine ⟨List.suffix_rfl, ?_⟩
  rw [← hp.append tail htail]
  rfl

/-! ### Taking tokens

A reader that takes tokens is one that expects them by a test and skips them. `take_of` is about
these; a mark is the exception to `Sees`, since it may be the comma itself. -/

theorem expect (hp : Sees p n) : Local (Source.expect p) :=
  look (.ite hp (pure ()) (.const failure))

theorem run_expect_skip (p : List Token → Bool) (n : Nat) (ts : List Token) :
    (do Source.expect p; skip n : Reader Unit).run ts =
      if p ts then some ((), ts.drop n) else none := by
  cases hp : p ts with
  | false => simp [Source.expect, hp]
  | true => simp [Source.expect, hp, skip]

theorem take_of (hp : ∀ tail, AtComma tail → ∀ ts, p ts = true → p (ts ++ tail) = true)
    (hn : ∀ ts, p ts = true → n ≤ ts.length) : Local (do Source.expect p; skip n) := by
  intro tail htail ts a us h
  rw [run_expect_skip] at h ⊢
  split at h
  · next hts =>
    cases h
    rw [if_pos (hp tail htail ts hts), List.drop_append_of_le_length (hn ts hts)]
    exact ⟨List.drop_suffix n ts, rfl⟩
  · cases h

theorem take (hp : Sees p n) : Local (do Source.expect p; skip n) :=
  take_of (fun tail htail ts h => (hp.append tail htail ts).trans h) hp.le_length

theorem word {w : String} : Local (Source.word w) := take .word

theorem lifetime : Local Source.lifetime := take .lifetime

theorem atMarks_append {cs : List Char} (h : atMarks cs ts = true) (tail : List Token) :
    atMarks cs (ts ++ tail) = true := by
  fun_induction atMarks cs ts <;> simp_all [atMarks]

theorem atMark_append {s : String} (h : atMark s ts = true) (tail : List Token) :
    atMark s (ts ++ tail) = true := atMarks_append h tail

/-- The mark may be a comma as well, if it stands among the tokens themselves. -/
theorem mark {s : String} : Local (Source.mark s) :=
  take_of (fun tail _ _ h => atMark_append h tail) fun _ => Sees.length_le_of_atMark

theorem word? {w : String} : Local (Source.word? w) :=
  look (.take .word (pure true) (.const (pure false)))

theorem mark? {s : String} (h : s.toList.contains ',' = false) : Local (Source.mark? s) :=
  look (.take (.mark h) (pure true) (.const (pure false)))

theorem anyWord : Local Source.anyWord := by
  intro tail _ ts a us h
  match ts, h with
  | .word w :: ts, h =>
    cases h
    exact ⟨List.suffix_cons _ _, rfl⟩

theorem identifier : Local Source.identifier := (expect .identifier).seq anyWord

/-- The literal in the words of tests. A sign is looked at together with the number behind it. -/
theorem anyLiteral_eq : Source.anyLiteral = (do
    let ts ← get
    if atMark "-" ts && atLiteral ts then skip 2
    else if atLiteral ts then skip 1
    else Alternative.failure) := by
  refine StateT.ext fun ts => ?_
  -- by the first token: a word, a literal, a mark, a lifetime or a group
  rcases ts with _ | ⟨_ | _ | ⟨c, joint⟩ | _ | _, ts⟩
  · rfl
  · rfl
  · rfl
  · by_cases hc : c = '-'
    · subst hc
      rcases ts with _ | ⟨_ | _ | _ | ⟨_ | _ | _⟩ | _, ts⟩ <;> rfl
    · have hmark : atMark "-" (.mark c joint :: ts) = false := by
        simp [atMark, atMarks, Ne.symm hc]
      have hliteral : atLiteral (.mark c joint :: ts) = false := by simp [atLiteral, hc]
      simp [Source.anyLiteral, hmark, hliteral, hc]
  · rfl
  · rfl

theorem anyLiteral : Local Source.anyLiteral := by
  have hnumber : Sees (fun ts => atMark "-" ts && atLiteral ts) 2 := by
    refine ⟨(Sees.and (.mark rfl) .literal).append, fun ts h => ?_⟩
    rcases ts with _ | ⟨t, _ | ⟨u, ts⟩⟩
    · cases h
    · cases t <;> simp [atMark, atMarks, atLiteral] at h
    · simp
  rw [anyLiteral_eq]
  exact look (.take_last hnumber (.take_last .literal (.const failure)))

/-- A group is one token, whose body is read by itself. What stands behind the group has no part in
it, and this is why nothing is asked of the reader of the body in `group`. -/
theorem run_groupBody_eq_some_iff {d : Delimiter} {body us : List Token} :
    (Source.groupBody d).run ts = some (body, us) ↔ ts = .group d body :: us := by
  constructor
  · intro h
    match ts, h with
    | .group e inner :: ts, h =>
      by_cases he : e = d
      · have hrun : (Source.groupBody d).run (.group e inner :: ts) = some (inner, ts) := by
          simp [Source.groupBody, he]
        cases hrun.symm.trans h
        rw [he]
      · simp [Source.groupBody, he] at h
  · rintro rfl
    simp [Source.groupBody]

theorem groupBody {d : Delimiter} : Local (Source.groupBody d) := by
  intro tail _ ts body us h
  obtain rfl := run_groupBody_eq_some_iff.1 h
  exact ⟨List.suffix_cons _ _, run_groupBody_eq_some_iff.2 rfl⟩

theorem group {d : Delimiter} : Local (Source.group d r) := by
  refine groupBody.bind fun body => ?_
  split
  · exact pure _
  · exact failure

theorem anyGroup : Local Source.anyGroup := by
  intro tail _ ts a us h
  match ts, h with
  | .group d body :: ts, h =>
    cases h
    exact ⟨List.suffix_cons _ _, rfl⟩

theorem run_attempt?_some {a : α} {us : List Token} (h : r.run ts = some (a, us)) :
    (Source.attempt? r).run ts = some (some a, us) := by
  have hread : r ts = some (a, us) := h
  simp only [StateT.run, Source.attempt?, hread]

theorem run_attempt?_none (h : r.run ts = none) : (Source.attempt? r).run ts = some (none, ts) := by
  have hread : r ts = none := h
  simp only [StateT.run, Source.attempt?, hread]

/-- What is left out is not read behind the comma either. -/
theorem attempt? (hr : Local r) (hnone : ∀ tail, AtComma tail → ∀ ts, r.run ts = none →
    r.run (ts ++ tail) = none) : Local (Source.attempt? r) := by
  intro tail htail ts o us h
  rcases hts : r.run ts with _ | ⟨a, vs⟩
  · cases (run_attempt?_none hts).symm.trans h
    exact ⟨List.suffix_rfl, run_attempt?_none (hnone tail htail ts hts)⟩
  · cases (run_attempt?_some hts).symm.trans h
    exact ⟨hr.suffix hts, run_attempt?_some (hr.run_append htail hts)⟩

theorem attempt?_lifetime : Local (Source.attempt? Source.lifetime) := by
  refine attempt? lifetime fun tail htail ts h => ?_
  rw [Source.lifetime, run_expect_skip] at h ⊢
  rw [Sees.lifetime.append tail htail]
  split at h
  · cases h
  · next hts => rw [if_neg hts]

theorem attempt?_textLiteral : Local (Source.attempt? textLiteral) := by
  refine attempt? (fun tail _ ts s us h => ?_) fun tail htail ts h => ?_
  · match ts, h with
    | .literal (.text s) :: ts, h =>
      cases h
      exact ⟨List.suffix_cons _ _, rfl⟩
  · obtain ⟨joint, more, rfl⟩ := htail
    rcases ts with _ | ⟨_ | _ | _ | ⟨_ | _ | _⟩ | _, ts⟩ <;> first | rfl | cases h

/-! ### Repetitions

The number of rounds is bounded by the number of tokens, and the tokens behind the comma raise this
bound. It makes no difference, because no round but the last leaves the tokens as they are. -/

theorem agree_repeatUpTo {step : Reader (Option α)} (hs : Local step)
    (ha : Advances fun _ => step) (htail : AtComma tail) (hn : ts.length < n)
    (hm : ts.length < m) : Agree tail (repeatUpTo step n) (repeatUpTo step m) ts := by
  -- the bounds differ, but both stay above the number of tokens as each round takes one
  induction n generalizing ts m with
  | zero => cases hn
  | succ n ih =>
    obtain ⟨m, rfl⟩ : ∃ k, m = k + 1 := ⟨m - 1, by omega⟩
    refine (hs tail htail ts).bind fun o us h => ?_
    cases o with
    | none => exact .pure []
    | some a =>
      have hus := ha ts a us h
      exact (ih (by omega) (by omega)).bind fun l vs _ => .pure (a :: l)

/-- The number of rounds that the tokens allow is never reached. -/
theorem repeated {step : Reader (Option α)} (hs : Local step) (ha : Advances fun _ => step) :
    Local (Source.repeated step) := by
  refine look fun tail htail ts => agree_repeatUpTo hs ha htail (Nat.lt_succ_self _) ?_
  rw [List.length_append]
  omega

end Local

/-! ### Taking tokens in each round

The condition of the last part: `Takes` is about the reader of an item, `Advances` about a round
that may also end the repetition. -/

namespace Takes

variable {r : Reader α}

/-- The part behind it may take further tokens, but gives none back. -/
theorem bind {f : α → Reader β} (hr : Takes r) (hf : ∀ a, Local (f a)) : Takes (r >>= f) := by
  intro ts b us h
  rw [StateT.run_bind] at h
  obtain ⟨⟨a, vs⟩, ha, hb⟩ := Option.bind_eq_some_iff.1 h
  exact Nat.lt_of_le_of_lt ((hf a).suffix hb).length_le (hr ts a vs ha)

theorem group {d : Delimiter} : Takes (Source.group d r) := by
  refine bind (r := Source.groupBody d) (fun ts body us h => ?_) fun body => ?_
  · rw [Local.run_groupBody_eq_some_iff.1 h]
    exact Nat.lt_succ_self _
  · split
    · exact .pure _
    · exact .failure

theorem mark {s : String} (hs : s.toList ≠ []) : Takes (Source.mark s) := by
  intro ts a us h
  rw [Source.mark, Local.run_expect_skip] at h
  split at h
  · next hts =>
    cases h
    have hlength := Sees.length_le_of_atMark hts
    have hpositive : 0 < s.length := List.length_pos_iff.2 hs
    rw [List.length_drop]
    omega
  · cases h

end Takes

namespace Advances

variable {r : Reader (Option α)} {step : List Token → Reader (Option α)} {p : List Token → Bool}

theorem none : Advances fun _ => (pure Option.none : Reader (Option α)) := by
  intro ts a us h
  cases h

theorem ite (hr : Takes r) (hstep : Advances step) :
    Advances fun ts => if p ts then r else step ts := by
  intro ts a us h
  dsimp only at h
  split at h
  · exact hr ts _ us h
  · exact hstep ts a us h

/-- A round that starts with taking the tokens that were tested. -/
theorem take (hp : Sees p n) (hn : 0 < n) (hr : Local r) (hstep : Advances step) :
    Advances fun ts => if p ts then (do skip n; r) else step ts := by
  intro ts a us h
  dsimp only at h
  split at h
  · next hts =>
    have hlength := hp.le_length ts hts
    have hrest : r.run (ts.drop n) = some (some a, us) := h
    have hus := (hr.suffix hrest).length_le
    rw [List.length_drop] at hus
    omega
  · exact hstep ts a us h

theorem look (hstep : Advances step) : Advances fun _ => (do step (← get)) := hstep

theorem mark? {s : String} (hs : s.toList ≠ []) (hcomma : s.toList.contains ',' = false)
    (hr : Local r) :
    Advances fun _ => (do if ← Source.mark? s then r else return Option.none) := by
  have htake : Advances fun ts => if atMark s ts then (do skip s.length; r) else pure Option.none :=
    take (.mark hcomma) (List.length_pos_iff.2 hs) hr none
  intro ts a us h
  refine htake ts a us ?_
  rw [← h]
  cases hts : atMark s ts <;> simp [Source.mark?, skip, hts]

end Advances

/-! ### Items between separators

A list of items ends where the test `stop` says, for instance at a closing bracket. Some of these
tests succeed at a comma, which is what separates the items of an argument list: then the end of the
tokens and a comma behind them must both end the list. -/

/-- A comma behind the tokens makes the test succeed at most where no tokens are left. -/
structure Stops (stop : List Token → Bool) : Prop where
  append : ∀ tail, AtComma tail → ∀ ts ≠ [], stop (ts ++ tail) = stop ts
  nil : ∀ tail, AtComma tail → stop [] = true → stop tail = true

namespace Stops

variable {stop : List Token → Bool}

theorem append_of_eq_true (h : Stops stop) (htail : AtComma tail) (hts : stop ts = true) :
    stop (ts ++ tail) = true := by
  cases ts with
  | nil => exact h.nil tail htail hts
  | cons t ts => rw [h.append tail htail _ (List.cons_ne_nil t ts), hts]

theorem of_sees (h : Sees stop n) : Stops stop where
  append tail htail ts _ := h.append tail htail ts
  nil tail htail hnil := (h.append tail htail []).trans hnil

theorem comma_or (h : Sees stop n) : Stops fun ts => atMark "," ts || stop ts where
  append tail htail ts hts := by
    obtain ⟨t, ts, rfl⟩ := List.exists_cons_of_ne_nil hts
    rw [Sees.atMark_comma_append, h.append tail htail]
  nil := by
    rintro _ ⟨joint, more, rfl⟩ -
    rfl

end Stops

namespace Local

variable {separator : String} {stop : List Token → Bool} {r : Reader α}

/-- By what a round can do (`nextItem_cases`): stop at once, read the last item, or read an item
with a separator behind it. On the longer tokens it does the same. -/
theorem nextItem (hsep : separator.toList ≠ []) (hstop : Stops stop) (hr : Local r) :
    Local (Source.nextItem separator stop r) := by
  intro tail htail ts o us h
  obtain ⟨hts, rfl, rfl⟩ | ⟨a, vs, hts, ha, rfl, hend⟩ := nextItem_cases h
  · exact ⟨List.suffix_rfl, run_nextItem_stop separator (hstop.append_of_eq_true htail hts)⟩
  have hvs := hr.suffix ha
  -- a round that starts where no tokens are left finds no separator either
  have hne : ts ≠ [] := by
    rintro rfl
    -- else an item would have been read from no tokens, and neither what ends nor what separates it
    -- is there
    cases List.suffix_nil.1 hvs
    rcases hend with ⟨hlast, -⟩ | ⟨-, hseparator, -⟩
    · exact Bool.false_ne_true (hts.symm.trans hlast)
    · exact Sees.ne_nil_of_atMark hsep hseparator rfl
  have hts' : stop (ts ++ tail) = false := (hstop.append tail htail ts hne).trans hts
  have ha' := hr.run_append htail ha
  obtain ⟨hlast, rfl⟩ | ⟨hmore, hseparator, rfl⟩ := hend
  · exact ⟨hvs, run_nextItem_last separator hts' ha' (hstop.append_of_eq_true htail hlast)⟩
  · have hmore' := (hstop.append tail htail vs (Sees.ne_nil_of_atMark hsep hseparator)).trans hmore
    refine ⟨(List.drop_suffix _ vs).trans hvs, ?_⟩
    rw [run_nextItem_more separator hts' ha' hmore' (atMark_append hseparator tail),
      List.drop_append_of_le_length (Sees.length_le_of_atMark hseparator)]

/-- A round goes on after an item only. Without a separator the item took a token, for if it had
taken none, the test that stops the list would have stopped it in front. -/
theorem advances_nextItem (hsep : separator.toList ≠ []) (hr : Local r) :
    Advances fun _ => Source.nextItem separator stop r := by
  intro ts a us h
  obtain ⟨-, hnone, -⟩ | ⟨b, vs, hts, hb, -, hend⟩ := nextItem_cases h
  · cases hnone
  have hvs := hr.suffix hb
  obtain ⟨hlast, rfl⟩ | ⟨hmore, hseparator, rfl⟩ := hend
  -- an item of no tokens leaves the tokens where `stop` failed, yet `stop` succeeded behind it
  · refine Nat.lt_of_le_of_ne hvs.length_le fun hlength => ?_
    rw [hvs.eq_of_length hlength, hts] at hlast
    cases hlast
  · have hlength := Sees.length_le_of_atMark hseparator
    have hpositive : 0 < separator.length := List.length_pos_iff.2 hsep
    have hshorter := hvs.length_le
    rw [List.length_drop]
    omega

theorem separatedUntil (hsep : separator.toList ≠ []) (hstop : Stops stop) (hr : Local r) :
    Local (Source.separatedUntil separator stop r) :=
  repeated (nextItem hsep hstop hr) (advances_nextItem hsep hr)

theorem manyWhile {p : List Token → Bool} (hp : Sees p n) (hr : Local r) (htakes : Takes r) :
    Local (Source.manyWhile p r) := by
  refine repeated (look (.ite hp (hr.bind fun a => pure (some a)) (.const (pure none)))) (.look ?_)
  exact .ite (htakes.bind fun a => pure (some a)) .none

end Local

end EndpointDocs.Source
