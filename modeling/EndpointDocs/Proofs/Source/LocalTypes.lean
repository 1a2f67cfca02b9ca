import EndpointDocs.Proofs.Source.Locality
import EndpointDocs.Source.TypeSyntax

/-!
# Types end in front of a comma

Each reader of a part of a type is local if the grammar of the parts inside is.

The proofs follow the readers line by line: a `do` step is a `bind` or `seq`, a test of the tokens
ahead is a `look`, and each test is put together from those of words, marks and groups as it is
written in the reader. Where two branches go on in the same way, what they go on with is proved
first and named.

What is inside of brackets is read from the body of a group. It plays no part here, however deep the
types in it are.
-/

namespace EndpointDocs.Source

/-- What the grammar reads outside of groups, it reads in front of a comma as well. Statements and
items stand only inside of groups, whose ends are marked. -/
structure Grammar.ReadsLocally (g : Grammar) : Prop where
  type : ∀ sums, Local (g (.type sums))
  bound : Local (g .bound)
  expression : ∀ structs, Local (g (.expression structs))
  operand : ∀ structs, Local (g (.operand structs))
  operators : ∀ structs left base, Local (g (.operators structs left base))
  pattern : Local (g .pattern)
  block : Local (g .block)

variable {g : Grammar}

/-! ### Parameters and arguments

Lists in angle brackets are not groups, as their brackets are marks among others. So their items
have to be local, and each list has to end at its closing bracket and not at a comma. -/

theorem Attribute.local_outer : Local (Attribute.outer g) :=
  .manyWhile (.mark rfl) (.seq .mark .group) (.bind (.mark (by decide)) fun _ => .group)

namespace TypeSyntax

theorem local_lifetimeParam : Local (lifetimeParam g) := by
  unfold lifetimeParam
  refine .seq Attribute.local_outer (.seq .lifetime (.bind (.mark? rfl) fun bounded => ?_))
  refine .ite ?_ (.pure ())
  exact .seq (.separatedUntil (by decide) (.comma_or (.mark rfl)) .lifetime) (.pure ())

theorem local_forLifetimes? : Local (forLifetimes? g) := by
  unfold forLifetimes?
  refine .bind .word? fun binder => .ite (.seq .mark ?_) (.pure false)
  refine .seq ?_ (.seq .mark (.pure true))
  exact .separatedUntil (by decide) (.of_sees (.mark rfl)) local_lifetimeParam

theorem local_returned (hg : g.ReadsLocally) (sums : Bool) : Local (returned g sums) := by
  unfold returned
  exact .bind (.mark? rfl) fun _ => .ite (.seq (hg.type sums) (.pure ())) (.pure ())

theorem local_constant (hg : g.ReadsLocally) : Local (constant g) :=
  .bind (.ahead .literal) fun _ => .ite .anyLiteral hg.block

theorem local_argument (hg : g.ReadsLocally) : Local (argument g) := by
  have none : Local (pure none : Reader (Option TypeExpr)) := .pure _
  unfold argument
  refine .look (.take (.and_behind .lifetime (.not (.mark rfl))) none ?_)
  -- a constant in place of a type, a type, or a name that is bound or bounded
  refine .ite (.or .literal .group) (.seq (local_constant hg) none) ?_
  refine .const (.bind (hg.type true) fun t => .ite ?_ (.pure _))
  refine .bind (.mark? rfl) fun assigned => .ite ?_ ?_
  · refine .bind (.ahead (.or .literal .group)) fun isConstant => .ite ?_ ?_
    · exact .seq (local_constant hg) none
    · exact .seq (hg.type true) none
  · refine .bind (.mark? rfl) fun bounded => .ite ?_ (.pure _)
    exact .seq (.separatedUntil (by decide) (.comma_or (.mark rfl)) hg.bound) none

theorem local_angleArguments (hg : g.ReadsLocally) : Local (angleArguments g) := by
  unfold angleArguments
  refine .seq (.mark? rfl) (.seq .mark ?_)
  exact .bind (.separatedUntil (by decide) (.of_sees (.mark rfl)) (local_argument hg)) fun args =>
    .seq .mark (.pure args)

/-! ### Paths

A path goes on as long as two colons are ahead. Each round takes them, so that the number of rounds
does not depend on what is behind the comma. -/

theorem local_segment (hg : g.ReadsLocally) (inExpression : Bool) :
    Local (segment g inExpression) := by
  -- what is behind the name does not depend on how the name was read
  have named : ∀ name : String, Local (do
      let ts ← get
      if (!inExpression && atMark "<" ts && !atMark "<=" ts && !atMark "<<=" ts) ||
          (atMark "::" ts && atMark "<" (ts.drop 2)) then
        let args ← angleArguments g
        return ⟨⟨name, args.filterMap id⟩, true, !args.isEmpty⟩
      else return { meaning := ⟨name, []⟩ } : Reader Segment) := by
    intro name
    have opened : Sees (fun ts => !inExpression && atMark "<" ts && !atMark "<=" ts &&
        !atMark "<<=" ts) 0 :=
      .and (.and (.and (.const _) (.mark rfl)) (.not (.mark rfl))) (.not (.mark rfl))
    refine .look (.ite (.or opened (.and_behind (.mark rfl) (.mark rfl))) ?_ (.const (.pure _)))
    exact .bind (local_angleArguments hg) fun args => .pure _
  unfold segment
  refine .bind (.ahead .words) fun _ => .ite (.bind .anyWord fun w => .pure _) ?_
  exact .bind (.ahead .word) fun _ => .ite (.bind .anyWord named) (.bind .identifier named)

theorem local_moreSegments (hg : g.ReadsLocally) (inExpression : Bool) :
    Local (moreSegments g inExpression) := by
  have more : Local (do return some (← segment g inExpression) : Reader (Option _)) :=
    .bind (local_segment hg inExpression) fun s => .pure _
  have hmore : Sees (fun ts => atMark "::" ts && !atGroup .parens (ts.drop 2)) 2 :=
    .and_behind (.mark rfl) (.not .group)
  refine .repeated (.look (.take hmore more (.const (.pure _)))) ?_
  exact .look (.take hmore (by decide) more .none)

theorem local_path (hg : g.ReadsLocally) (inExpression : Bool) : Local (path g inExpression) := by
  unfold path
  refine .bind (.mark? rfl) fun leading => .bind (local_segment hg inExpression) fun first => ?_
  exact .bind (local_moreSegments hg inExpression) fun rest => .pure _

/-- No token is counted on: the marks and the group are taken by readers of their own. -/
theorem sees_atCall : Sees atCall 0 := .or (m := 2) .group (.and_behind (.mark rfl) .group)

theorem local_callArguments (hg : g.ReadsLocally) : Local (callArguments g) := by
  unfold callArguments
  exact .seq (.mark? rfl) (.seq .group (local_returned hg false))

/-! ### Bounds

A bound is a path with words and marks in front, a lifetime, or a list of captured names. -/

theorem local_traitBound (hg : g.ReadsLocally) : Local (traitBound g) := by
  -- both ways to write a constant bound go on with this
  have behind : ∀ maybe binder : Bool, Local (do
      if maybe && !binder then let _ ← forLifetimes? g
      let p ← path g false
      let ts ← get
      if p.lastBare && atCall ts then callArguments g : Reader Unit) := by
    intro maybe binder
    refine .when local_forLifetimes? (.bind (local_path hg false) fun p => ?_)
    exact .look (.ite (.and (.const _) sees_atCall) (local_callArguments hg) (.const (.pure ())))
  unfold traitBound
  refine .bind local_forLifetimes? fun binder => .bind (.mark? rfl) fun isConst => .ite ?_ ?_
  · exact .seq .word (.bind (.mark? rfl) fun maybe => behind maybe binder)
  · exact .seq .word? (.bind (.mark? rfl) fun maybe => behind maybe binder)

theorem local_bound (hg : g.ReadsLocally) : Local (bound g) := by
  -- one name in the list of `use<..>`
  have captured : Local (do
      if ← ahead atLifetime then skip 1
      else expect (fun ts => atIdentifier ts || atWord "Self" ts); skip 1 : Reader Unit) :=
    .ahead_look (.take_last .lifetime (.const (.take (.or_same .identifier .word))))
  unfold bound
  refine .ahead_look (.take .lifetime (.pure false) (.const (.bind .word? fun _ => .ite ?_ ?_)))
  · refine .seq .mark (.seq (.separatedUntil (by decide) (.of_sees (.mark rfl)) captured) ?_)
    exact .seq .mark (.pure false)
  · refine .bind (.ahead .group) fun _ => .ite (.seq .group (.pure true)) ?_
    exact .seq (local_traitBound hg) (.pure true)

theorem local_qualifiedPath (hg : g.ReadsLocally) (inExpression : Bool) :
    Local (qualifiedPath g inExpression) := by
  have behind : Local (do
      mark ">"
      mark "::"
      let first ← segment g inExpression
      let rest ← repeated do
        if ← mark? "::" then return some (← segment g inExpression) else return none
      let last := rest.getLast?.getD first
      return ⟨last.meaning, false, false, !last.filled, true⟩ : Reader ReadPath) := by
    have more : Local (do return some (← segment g inExpression) : Reader (Option _)) :=
      .bind (local_segment hg inExpression) fun s => .pure _
    refine .seq .mark (.seq .mark (.bind (local_segment hg inExpression) fun first => ?_))
    -- behind a type in brackets any two colons lead to a segment
    refine .bind (.repeated ?_ (.mark? (by decide) rfl more)) fun rest => .pure _
    exact .bind (.mark? rfl) fun _ => .ite more (.pure _)
  unfold qualifiedPath
  refine .bind (.mark? rfl) fun _ => .ite (.seq (hg.type true) ?_) (local_path hg inExpression)
  exact .bind .word? fun _ => .when (local_path hg false) behind

/-- A comma starts no bound, so a plus sign in front of one is the last token of the bounds. -/
theorem sees_atBound : Sees atBound 0 :=
  .or (.or (.or (.or (.or .anyWord (.mark rfl)) (.mark rfl)) .lifetime) .group) (.mark rfl)

theorem local_moreBounds (hg : g.ReadsLocally) : Local (moreBounds g) := by
  have more : Local (do
      if ← ahead atBound then return some (← g .bound) else return some false : Reader _) :=
    .bind (.ahead sees_atBound) fun _ => .ite (.bind hg.bound fun b => .pure _) (.pure _)
  unfold moreBounds
  refine .bind (.repeated ?_ (.mark? (by decide) rfl more)) fun found => .pure _
  exact .bind (.mark? rfl) fun _ => .ite more (.pure _)

theorem local_boundsOf (hg : g.ReadsLocally) (sums : Bool) : Local (boundsOf g sums) := by
  have decided : ∀ first more : Bool,
      Local (if first || more then pure () else failure : Reader Unit) :=
    fun first more => .ite (.pure ()) .failure
  unfold boundsOf
  refine .bind hg.bound fun first => ?_
  exact .ite (.bind (local_moreBounds hg) (decided first)) (decided first false)

/-! ### Types

Each form of a type, and then the choice among them. The choice is made by the first token that is
no binder, so it is the longest of the proofs, with one step for each form. -/

theorem local_foreign : Local foreign := by
  unfold foreign
  exact .seq .word (.seq .attempt?_textLiteral (.pure ()))

theorem local_functionType (hg : g.ReadsLocally) : Local (functionType g) := by
  have behind : Local (do
      word "fn"
      let _ ← group .parens (commas (functionParam g))
      returned g false : Reader Unit) := .seq .word (.seq .group (local_returned hg false))
  unfold functionType
  exact .seq .word? (.bind (.ahead .word) fun _ => .when local_foreign behind)

theorem local_inParens (hg : g.ReadsLocally) (sums : Bool) : Local (inParens g sums) := by
  unfold inParens
  -- the body is read to its end, and plus signs behind the group are read on the outside
  refine .bind .groupBody fun body => .ite ?_ ?_
  · split
    · exact .failure
    · exact .seq (local_moreBounds hg) (.pure _)
  · dsimp only
    split
    · exact .failure
    · refine .bind (.ahead (.mark rfl)) fun _ => .ite ?_ (.pure _)
      exact .seq (local_moreBounds hg) (.pure _)

theorem local_fromPath (hg : g.ReadsLocally) (sums binder : Bool) :
    Local (fromPath g sums binder) := by
  unfold fromPath
  refine .bind (local_qualifiedPath hg false) fun p => .ite (.pure _) (.look ?_)
  refine .take (.and (.mark_not rfl rfl) (.const _)) (.seq .anyGroup (.pure _)) ?_
  refine .ite (.and (.const _) (.mark rfl)) (.seq (local_moreBounds hg) (.pure _)) ?_
  exact .const (.ite (.pure _) (.pure _))

/-- The steps stand in the order of the forms in `TypeSyntax.read`; the last one is that no type
starts with the token. -/
theorem local_read (hg : g.ReadsLocally) (sums : Bool) : Local (TypeSyntax.read g sums) := by
  have freely : ∀ form, Local (pure (free form) : Reader ReadType) := fun form => .pure _
  have referred : Local (do
      let _ ← word? "mut"
      let t ← g (.type false)
      return ⟨t.meaning, .other⟩ : Reader ReadType) :=
    .seq .word? (.bind (hg.type false) fun t => .pure _)
  unfold TypeSyntax.read
  refine .bind local_forLifetimes? fun binder => .look ?_
  refine .ite (.and (.const _) (.not (.or .words .pathWord))) .failure ?_
  -- a type in parentheses, a function, a path, an object of bounds
  refine .ite .group (local_inParens hg sums) ?_
  refine .ite .words (.seq (local_functionType hg) (freely _)) ?_
  refine .ite (.or (.or .pathWord (.mark rfl)) (.mark rfl)) (local_fromPath hg sums binder) ?_
  refine .take .word (.seq (.mark? rfl) (.seq (local_boundsOf hg sums) (freely _))) ?_
  -- a list or slice, a pointer
  refine .ite .group (.bind .group fun t => .pure _) (.take (.mark rfl) ?_ ?_)
  · refine .bind .word? fun _ => .ite ?_ (.seq .word ?_)
    · exact .seq (hg.type false) (freely _)
    · exact .seq (hg.type false) (freely _)
  -- a reference, with a lifetime or without, then the types that are one word or mark
  refine .take (.mark rfl) (.ahead_look (.take .lifetime referred (.const referred))) ?_
  refine .take (.mark rfl) (freely _) (.take .word (.seq (local_boundsOf hg sums) (freely _)) ?_)
  refine .take .word (freely _) (.ite .lifetime ?_ (.const .failure))
  exact .seq (local_boundsOf hg true) (freely _)

end TypeSyntax

end EndpointDocs.Source
