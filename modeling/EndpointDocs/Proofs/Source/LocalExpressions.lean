import EndpointDocs.Proofs.Source.LocalTypes
import EndpointDocs.Source.Item

/-!
# Expressions end in front of a comma

Each reader of a part of a pattern or an expression is local if the grammar of the parts inside is.
By induction on the depth of nesting so is the whole grammar (`Grammar.readsLocally_upTo`).

Most of the cases are as in the module of the types. What is new is the strength of operators: how
much an operand takes depends on the operator behind it, so a comma must have no strength
(`strengthAhead_append`), and it must end what may be left out: the bound of a range, the value
behind `return`.
-/

namespace EndpointDocs.Source

variable {g : Grammar} {tail ts : List Token}

/-! ## Patterns

Patterns stand in closures, in conditions and in loops. A range among them may have no upper bound,
which is the only place where the end of the tokens decides. -/

namespace Pattern

theorem sees_atBar : Sees atBar 1 := .and (.mark_not rfl rfl) (.not (.mark rfl))

theorem local_alternatives (hg : g.ReadsLocally) : Local (alternatives g) := by
  have more : Local (do return some (← g .pattern) : Reader (Option Unit)) :=
    .bind hg.pattern fun _ => .pure _
  unfold alternatives
  refine .seq (.mark? rfl) (.seq hg.pattern (.seq (.repeated ?_ ?_) (.pure ())))
  · exact .look (.take sees_atBar more (.const (.pure none)))
  · exact .look (.take sees_atBar (by decide) more .none)

theorem sees_atNoBound : Sees atNoBound 0 := by
  -- the test in the form of `end_or_comma`: it succeeds at a comma as at the end
  have heq : atNoBound = fun ts => (ts.isEmpty || atMark "," ts) || (atMark "|" ts ||
      atMark "=" ts || (atMark ":" ts && !atMark "::" ts) || atMark ";" ts || atWord "if" ts) := by
    funext ts
    rw [atNoBound]
    ac_rfl
  rw [heq]
  exact .end_or_comma (.or (.or (.or (.or (.mark rfl) (.mark rfl)) (.mark_not rfl rfl))
    (.mark rfl)) .word)

theorem local_rangeBound (hg : g.ReadsLocally) : Local (rangeBound g) := by
  unfold rangeBound
  refine .look (.ite .literal .anyLiteral (.take .word hg.block (.const ?_)))
  exact .seq (TypeSyntax.local_qualifiedPath hg true) (.pure ())

theorem local_rangeRest (hg : g.ReadsLocally) : Local (rangeRest g) := by
  have hbound := local_rangeBound hg
  unfold rangeRest
  refine .bind (.mark? rfl) fun _ => .ite hbound (.bind (.mark? rfl) fun _ => .ite hbound ?_)
  refine .seq .mark ?_
  exact .bind (.ahead sees_atNoBound) fun _ => .ite (.pure ()) hbound

theorem local_fromPath (hg : g.ReadsLocally) : Local (fromPath g) := by
  unfold fromPath
  refine .bind (TypeSyntax.local_qualifiedPath hg true) fun p => .look ?_
  -- the call of a macro, a structure, a tuple, a range or the path alone
  refine .take (.and (.and (.and_right (.const _) (.mark rfl)) (.not (.mark rfl))) (.const _)) ?_ ?_
  · exact .seq .anyGroup (.pure ())
  · refine .ite .group (.seq .group (.pure ())) (.ite .group (.seq .group (.pure ())) ?_)
    exact .ite (.mark rfl) (local_rangeRest hg) (.const (.pure ()))

theorem local_binding (hg : g.ReadsLocally) : Local (binding g) := by
  have pattern : Local (do if ← mark? "@" then g .pattern : Reader Unit) :=
    .bind (.mark? rfl) fun _ => .ite hg.pattern (.pure ())
  unfold binding
  refine .seq .word? (.seq .word? (.bind .word? fun _ => .ite pattern ?_))
  exact .seq .identifier pattern

theorem sees_atPath : Sees atPath 0 := by
  -- a name is a path if one of these is behind it, else it is a binding
  have behind : Sees (fun ts => atMark "::" ts || atMark "!" ts || atGroup .braces ts ||
      atGroup .parens ts || atMark ".." ts) 0 :=
    .or (.or (.or (.or (.mark rfl) (.mark rfl)) .group) .group) (.mark rfl)
  exact .or (.or (.or (.or (.and_behind (n := 1) .identifier behind)
    (.and_behind (n := 1) .word (.mark rfl))) (.mark rfl)) (.mark rfl)) .words

theorem local_read (hg : g.ReadsLocally) : Local (Pattern.read g) := by
  unfold Pattern.read
  refine .look (.ite sees_atPath (local_fromPath hg) (.take_last .word (.take .word hg.pattern ?_)))
  refine .ite (.or .literal .word) (.seq (local_rangeBound hg) ?_) ?_
  · exact .bind (.ahead (.mark rfl)) fun _ => .ite (local_rangeRest hg) (.pure ())
  refine .ite (.or .words .identifier) (local_binding hg) ?_
  refine .take (.mark rfl) (.seq .word? hg.pattern) ?_
  refine .ite .group (.seq .group (.pure ())) (.ite .group (.seq .group (.pure ())) ?_)
  exact .ite (.mark rfl) (local_rangeRest hg) (.const .failure)

end Pattern

/-! ## Expressions

Operators are looked up in a table of marks, none of which has a comma in it. So the operator ahead
is the same in front of a comma, and with it the strength that decides how far an operand goes. -/

namespace Expression

theorem operator?_append (htail : AtComma tail) (ts : List Token) :
    operator? (ts ++ tail) = operator? ts := by
  have hfind : ∀ table : List (String × Strength), (∀ p ∈ table, ',' ∉ p.1.toList) →
      table.find? (fun p => atMark p.1 (ts ++ tail)) = table.find? fun p => atMark p.1 ts := by
    intro table htable
    induction table with
    | nil => rfl
    | cons p rest ih =>
      obtain ⟨hp, hrest⟩ := List.forall_mem_cons.1 htable
      have happend : atMark p.1 (ts ++ tail) = atMark p.1 ts := Sees.atMarks_append_comma hp htail
      rw [List.find?_cons, List.find?_cons, happend, ih hrest]
  rw [operator?, operator?, hfind operatorTable (by decide)]

/-- The marks of the operator ahead are there to be taken. -/
theorem length_le_of_operator? {n : Nat} {strength : Strength}
    (h : operator? ts = some (n, strength)) : n ≤ ts.length := by
  obtain ⟨p, hp, heq⟩ := Option.map_eq_some_iff.1 h
  cases heq
  have hmark : atMark p.1 ts = true := by simpa using List.find?_some hp
  exact Sees.length_le_of_atMark hmark

theorem sees_atAssignment : Sees atAssignment 1 := .mark_not rfl rfl

theorem strengthAhead_append (htail : AtComma tail) (ts : List Token) :
    strengthAhead (ts ++ tail) = strengthAhead ts := by
  rw [strengthAhead, strengthAhead, operator?_append htail, sees_atAssignment.append tail htail,
    (Sees.mark (s := "..") rfl).append tail htail, (Sees.word (w := "as")).append tail htail]

/-- Operators stronger than the one in front are taken into its right operand. What is read with the
comma behind stops at the same operator. -/
theorem agree_strengthen (hg : g.ReadsLocally) (structs : Bool) (strength : Nat)
    (htail : AtComma tail) {n m : Nat} {form : ExprForm} (hn : ts.length < n)
    (hm : ts.length < m) : Agree tail (strengthen g structs strength n form)
      (strengthen g structs strength m form) ts := by
  -- as in a repetition, the bounds differ but stay above the number of tokens
  induction n generalizing ts m form with
  | zero => cases hn
  | succ n ih =>
    obtain ⟨m, rfl⟩ : ∃ k, m = k + 1 := ⟨m - 1, by omega⟩
    unfold strengthen
    refine .get ?_
    dsimp only
    rw [strengthAhead_append htail]
    split
    · refine (hg.operators structs form _ tail htail ts).bind fun form us h => .get ?_
      have hsuffix := (hg.operators structs _ _).suffix h
      -- whether a round took something is asked by comparing lengths, and the comma adds the same
      -- to both
      simp only [List.length_append, Nat.add_right_cancel_iff]
      split
      · exact .pure form
      · have hlength := hsuffix.length_le
        exact ih (by omega) (by omega)
    · exact .pure form

theorem local_rightOperand (hg : g.ReadsLocally) (structs : Bool) (strength : Nat) :
    Local (rightOperand g structs strength) := by
  unfold rightOperand
  refine .bind (hg.operand structs) fun form => .look fun tail htail ts => ?_
  refine (agree_strengthen hg structs strength htail (Nat.lt_succ_self _) ?_).bind fun _ _ _ =>
    .pure ()
  rw [List.length_append]
  omega

theorem sees_atRangeEnd (structs : Bool) : Sees (atRangeEnd structs) 0 := by
  -- again in the form of `end_or_comma`
  have heq : atRangeEnd structs = fun ts => (ts.isEmpty || atMark "," ts) ||
      ([";", "?", "=>", "=", "+", "/", "%", "^", ">", "<=", "!=", "-=", "*=", "&=", "|=",
        "<<="].any (atMark · ts) || (atMark "." ts && !atMark ".." ts) ||
        (!structs && atGroup .braces ts) || atWord "as" ts) := by
    funext ts
    simp only [atRangeEnd, List.any_cons, List.any_nil, Bool.or_false]
    ac_rfl
  rw [heq]
  exact .end_or_comma (.or (.or (.or (.anyMark rfl) (.mark_not rfl rfl)) (.and (.const _) .group))
    .word)

theorem local_rangeRest (hg : g.ReadsLocally) (structs : Bool) : Local (rangeRest g structs) := by
  have hright := local_rightOperand hg structs Strength.range.rank
  unfold rangeRest
  refine .bind (.mark? rfl) fun _ => .ite hright (.bind (.mark? rfl) fun _ => .ite hright ?_)
  refine .seq .mark ?_
  exact .bind (.ahead (sees_atRangeEnd structs)) fun _ => .ite (.pure ()) hright

theorem sees_atAfterCast : Sees atAfterCast 0 :=
  .or (.or (.or (.mark_not rfl rfl) (.mark rfl)) .group) .group

theorem local_operators (hg : g.ReadsLocally) (structs : Bool) (left : ExprForm) (base : Nat) :
    Local (operators g structs left base) := by
  -- assignments, ranges and casts are not in the table
  have unlisted : Looks (α := ExprForm) fun ts =>
      if base ≤ Strength.assignment.rank && atAssignment ts then do
        skip 1
        rightOperand g structs Strength.assignment.rank
        g (.operators structs .other base)
      else if base ≤ Strength.range.rank && atMark ".." ts then do
        rangeRest g structs
        return .range
      else if base ≤ Strength.cast.rank && atWord "as" ts then do
        skip 1
        let _ ← g (.type false)
        expect (fun ts => !atAfterCast ts)
        g (.operators structs .other base)
      else return left := by
    refine .take (.and_right (.const _) sees_atAssignment) ?_ ?_
    · exact .seq (local_rightOperand hg structs _) (hg.operators structs _ base)
    refine .ite (.and (.const _) (.mark rfl)) (.seq (local_rangeRest hg structs) (.pure _)) ?_
    refine .take (.and_right (.const _) .word) (.seq (hg.type false) ?_) (.const (.pure _))
    exact .seq (.expect (.not sees_atAfterCast)) (hg.operators structs _ base)
  unfold operators
  refine .ite (.pure _) (.look fun tail htail ts => ?_)
  rw [operator?_append htail]
  cases h : operator? ts with
  | some found =>
    obtain ⟨length, strength⟩ := found
    dsimp only
    split
    · exact .pure _
    split
    · exact Local.failure tail htail ts
    -- the operator is taken with as many tokens as it has marks
    refine (Agree.skip (length_le_of_operator? h)).bind fun _ us _ => ?_
    exact (Local.seq (local_rightOperand hg structs _) (hg.operators structs _ base)) tail htail us
  | none => exact unlisted tail htail ts

/-! ### Operands

An operand is an atom with prefixes in front and calls, members and indices behind. Behind an atom a
repetition takes what is left of it, so each of these must take a token. -/

theorem local_list {d : Delimiter} : Local (list g d) := .seq .group (.pure ())

theorem takes_list {d : Delimiter} : Takes (list g d) := .bind .group fun _ => .pure ()

theorem local_member (hg : g.ReadsLocally) : Local (member g) := by
  have named : Local (do
      if ← word? "await" then pure ()
      else
        let _ ← identifier
        if ← ahead (atMark "::") then
          let _ ← TypeSyntax.angleArguments g
          list g .parens
        else if ← ahead (atGroup .parens) then list g .parens : Reader Unit) := by
    refine .bind .word? fun _ => .ite (.pure ()) (.seq .identifier ?_)
    refine .bind (.ahead (.mark rfl)) fun _ => .ite ?_ ?_
    · exact .seq (TypeSyntax.local_angleArguments hg) local_list
    · exact .bind (.ahead .group) fun _ => .ite local_list (.pure ())
  unfold member
  refine .look fun tail htail ts => ?_
  obtain ⟨joint, more, rfl⟩ := id htail
  -- only a number is taken by its form, the position of a member; all others go the same way
  rcases ts with _ | ⟨_ | _ | _ | ⟨_ | _ | _⟩ | _, ts⟩
  case cons.literal.number digits =>
    intro a us h
    cases h
    exact ⟨List.suffix_cons _ _, rfl⟩
  all_goals exact named _ htail _

theorem local_trailers (hg : g.ReadsLocally) (form : ExprForm) : Local (trailers g form) := by
  have hpoint : Sees (fun ts => atMark "." ts && !atMark ".." ts && decide (form ≠ .range)) 1 :=
    .and (.mark_not rfl rfl) (.const _)
  have hquestion : Sees (fun ts => atMark "?" ts && decide (form ≠ .range)) 1 :=
    .and (.mark rfl) (.const _)
  have done : Local (pure (some ()) : Reader (Option Unit)) := .pure _
  unfold trailers
  refine .bind (.repeated (.look ?_) (.look ?_)) fun found => .pure _
  · refine .ite .group (.seq local_list done) (.take hpoint (.seq (local_member hg) done) ?_)
    exact .ite .group (.seq .group done) (.take hquestion done (.const (.pure none)))
  · refine .ite (.bind takes_list fun _ => done) (.take hpoint (by decide) ?_ ?_)
    · exact .seq (local_member hg) done
    · exact .ite (.bind .group fun _ => done) (.take hquestion (by decide) done .none)

theorem local_fromPath (hg : g.ReadsLocally) (structs : Bool) : Local (fromPath g structs) := by
  unfold fromPath
  refine .bind (TypeSyntax.local_qualifiedPath hg true) fun p => .look ?_
  refine .take (.and (.and (.and_right (.const _) (.mark rfl)) (.not (.mark rfl))) (.const _)) ?_ ?_
  · exact .bind .anyGroup fun d => .pure _
  · exact .ite (.and (.const _) .group) (.seq .group (.pure _)) (.const (.pure _))

theorem local_closureParam (hg : g.ReadsLocally) : Local (closureParam g) := by
  unfold closureParam
  refine .seq Attribute.local_outer (.seq hg.pattern (.bind (.mark? rfl) fun _ => ?_))
  exact .ite (.seq (hg.type true) (.pure ())) (.pure ())

theorem local_closure (hg : g.ReadsLocally) (structs : Bool) : Local (closure g structs) := by
  unfold closure
  refine .seq TypeSyntax.local_forLifetimes? (.seq .word? (.seq .word? (.seq .word? ?_)))
  refine .seq .word? (.seq .mark (.seq ?_ (.seq .mark ?_)))
  · exact .separatedUntil (by decide) (.of_sees (.mark rfl)) (local_closureParam hg)
  refine .bind (.mark? rfl) fun _ => .ite (.seq (hg.type true) hg.block) ?_
  exact .seq (hg.expression structs) (.pure ())

/-- By the words and marks in front: bars, `move`, a binder of lifetimes, or `static`, `const` and
`async` in front of these. -/
theorem sees_atClosure : Sees atClosure 0 := by
  have binder : Sees (fun ts => atWord "for" ts && atMark "<" (ts.drop 1) &&
      (atLifetime (ts.drop 2) || atMark ">" (ts.drop 2))) 2 := by
    have opened : Sees (fun ts => atWord "for" ts && atMark "<" (ts.drop 1)) 2 :=
      .and_next (n := 1) (m := 1) .word (.mark rfl)
    have behind : Sees (fun ts => atLifetime ts || atMark ">" ts) 0 := .or .lifetime (.mark rfl)
    exact .and_behind opened behind
  have asynchronous : Sees (fun ts => atMark "|" ts || atWord "move" ts) 0 :=
    .or (.mark rfl) .word
  exact .or (.or (.or (.or (.or (.mark rfl) .word) binder)
    (.and_behind (n := 1) .word (.not .group))) .word) (.and_behind (n := 1) .word asynchronous)

/-- What an expression may start with. A comma starts none, so what may be left out is left out in
front of it. -/
theorem sees_atExpression : Sees atExpression 0 :=
  .or (.or (.or (.or (.or (.or (.or (.or (.or (.or (.or (.or (.or (.or (.and .anyWord (.not .word))
    .group) .group) .group) .literal) (.mark_not rfl rfl))
    (.and (.mark_not rfl rfl) (.not (.mark rfl)))) (.mark_not rfl rfl)) (.mark_not rfl rfl))
    (.mark_not rfl rfl)) (.mark rfl)) (.and (.mark_not rfl rfl) (.not (.mark rfl))))
    (.mark rfl)) .lifetime) (.mark rfl)

/-- What is given back by `return` or `break` may be left out. -/
theorem local_optionalValue (hg : g.ReadsLocally) (structs : Bool) :
    Local (optionalValue g structs) := by
  unfold optionalValue
  refine .look (.ite (.and sees_atExpression (.or (.const _) (.not .group))) ?_ (.const (.pure ())))
  exact .seq (hg.expression structs) (.pure ())

theorem local_conditional (hg : g.ReadsLocally) : Local (conditional g) := by
  unfold conditional
  refine .seq .word (.seq (hg.expression false) (.seq hg.block ?_))
  refine .bind .word? fun _ => .ite (.bind (.ahead .word) fun _ => .ite ?_ hg.block) (.pure ())
  exact .seq (hg.operand true) (.pure ())

theorem local_looping (hg : g.ReadsLocally) : Local (looping g) := by
  have body : Local (do let _ ← g (.expression false); g .block : Reader Unit) :=
    .seq (hg.expression false) hg.block
  unfold looping
  refine .bind .word? fun _ => .ite body (.bind .word? fun _ => .ite ?_ ?_)
  · exact .seq (Pattern.local_alternatives hg) (.seq .word body)
  · exact .bind .word? fun _ => .ite hg.block hg.block

/-- One step for each form, in the order in which the atoms are told apart. -/
theorem local_atom (hg : g.ReadsLocally) (structs : Bool) : Local (atom g structs) := by
  have other : Local (pure .other : Reader ExprForm) := .pure _
  have ended : Local (pure .block : Reader ExprForm) := .pure _
  -- first the tests that look at more than one token
  have asyncBlock : Sees (fun ts => atWord "async" ts && (atGroup .braces (ts.drop 1) ||
      (atWord "move" (ts.drop 1) && atGroup .braces (ts.drop 2)))) 1 := by
    have moving : Sees (fun ts => atWord "move" ts && atGroup .braces (ts.drop 1)) 1 :=
      .and_behind (n := 1) .word .group
    have behind : Sees (fun ts => atGroup .braces ts ||
        (atWord "move" ts && atGroup .braces (ts.drop 1))) 0 := .or .group moving
    simpa only [List.drop_drop] using Sees.and_behind (n := 1) .word behind
  have tryPath : Sees (fun ts => atWord "try" ts &&
      (atMark "!" (ts.drop 1) || atMark "::" (ts.drop 1))) 1 := by
    have behind : Sees (fun ts => atMark "!" ts || atMark "::" ts) 0 :=
      .or (.mark rfl) (.mark rfl)
    exact .and_behind (n := 1) .word behind
  have label : Sees (fun ts => atLifetime ts && atMark ":" (ts.drop 1)) 2 :=
    .and_next (n := 1) (m := 1) .lifetime (.mark rfl)
  unfold atom
  refine .look ?_
  -- then the forms: literals and blocks that a word goes before
  refine .ite .literal (.seq .anyLiteral other) ?_
  refine .take asyncBlock (.seq .word? (.seq hg.block other)) ?_
  refine .take (.and_behind (n := 1) .word .group) (.seq hg.block ended) ?_
  refine .ite sees_atClosure (.seq (local_closure hg structs) other) ?_
  refine .ite (.or (.or (.or .pathWord (.mark rfl)) (.mark rfl)) tryPath) ?_ ?_
  · exact local_fromPath hg structs
  -- parentheses and the words that leave a loop or a function
  refine .ite .group (.seq .group other) (.take .word ?_ (.take .word ?_ (.take .words ?_ ?_)))
  · exact .seq .attempt?_lifetime (.seq (local_optionalValue hg structs) other)
  · exact .seq .attempt?_lifetime other
  · exact .seq (local_optionalValue hg true) other
  refine .ite .group (.seq .group other) (.take .word ?_ ?_)
  · refine .seq (Pattern.local_alternatives hg) (.seq .mark (.bind (hg.operand structs) ?_))
    exact fun left => .seq (hg.operators structs left _) other
  -- conditions, loops and matches, which a block ends
  refine .ite .word (.seq (local_conditional hg) ended) ?_
  refine .ite .words (.seq (local_looping hg) ended) ?_
  refine .take .word (.seq (hg.expression false) (.seq .group ended)) ?_
  refine .take (.and_behind (n := 1) .words .group) (.seq hg.block ended) ?_
  -- a bare block, a range without a lower bound, and what a label is in front of
  refine .ite .group (.seq hg.block ended) ?_
  refine .ite (.mark rfl) (.seq (local_rangeRest hg structs) (.pure _)) ?_
  exact .take .word other (.take label (.seq (local_looping hg) ended) (.const .failure))

theorem local_operand (hg : g.ReadsLocally) (structs : Bool) : Local (operand g structs) := by
  have raw : Sees (fun ts => atWord "raw" ts && atWords ["mut", "const"] (ts.drop 1)) 2 :=
    .and_next (n := 1) (m := 1) .word .words
  have inner : Local (do let _ ← g (.operand structs); return .other : Reader ExprForm) :=
    .seq (hg.operand structs) (.pure _)
  have sign : Sees (fun ts =>
      atMark "*" ts || atMark "!" ts || (atMark "-" ts && !atLiteral ts)) 1 :=
    .or_same (.or_same (.mark rfl) (.mark rfl)) (.and (.mark rfl) (.not .literal))
  unfold operand
  refine .seq Attribute.local_outer (.look (.take (.mark rfl) ?_ (.take sign inner (.const ?_))))
  · exact .look (.take raw inner (.const (.seq .word? inner)))
  · exact .bind (local_atom hg structs) fun form => local_trailers hg form

theorem local_read (hg : g.ReadsLocally) (structs : Bool) : Local (Expression.read g structs) :=
  .bind (hg.operand structs) fun form => hg.operators structs form 0

end Expression

/-! ## The whole grammar

`Grammar.upTo (n + 1)` reads each kind of part with `Grammar.upTo n` for the parts inside. Below
that, at no depth at all, nothing is read. So the lemmas of both modules are the step of the
induction. -/

/-- A block is a group whatever is in it. -/
theorem Grammar.readsLocally_upTo (n : Nat) : (Grammar.upTo n).ReadsLocally := by
  induction n with
  | zero =>
    exact ⟨fun _ => .failure, .failure, fun _ => .failure, fun _ => .failure,
      fun _ _ _ => .failure, .failure, .failure⟩
  | succ n ih =>
    exact {
      type := TypeSyntax.local_read ih
      bound := TypeSyntax.local_bound ih
      expression := Expression.local_read ih
      operand := Expression.local_operand ih
      operators := Expression.local_operators ih
      pattern := Pattern.local_read ih
      block := .group }

end EndpointDocs.Source
