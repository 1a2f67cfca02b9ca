import EndpointDocs.Source.Item
import EndpointDocs.Proofs.TypeKey
import Mathlib.Data.Set.Function

/-!
# Types that are read from text are well-named

The names of a type come from identifiers of the text, and no identifier holds a point or a hyphen.
The other parts of the grammar take tokens but leave no name in a type, so nothing has to be known
of them. Main statements: `wellNamed_of_typeExpr?`, and `refKey_injOn_wellNamed`, by which the key
of a type that was read names the type.
-/

namespace EndpointDocs

/-! ## Words

A point separates the parts of a key and a hyphen its arguments. Neither can be in a word. -/

/-- The characters of an identifier are letters, digits and low lines. -/
theorem Text.dot_hyphen_not_mem_of_isIdentifier {cs : List Char} (h : isIdentifier cs = true) :
    cs ≠ [] ∧ '.' ∉ cs ∧ '-' ∉ cs := by
  cases cs with
  | nil => cases h
  | cons c rest =>
    rw [isIdentifier, Bool.and_eq_true, List.all_eq_true] at h
    refine ⟨List.cons_ne_nil c rest, ?_, ?_⟩
    · intro hm
      rcases List.mem_cons.1 hm with rfl | hm
      · exact absurd h.1 (by decide)
      · exact absurd (h.2 _ hm) (by decide)
    · intro hm
      rcases List.mem_cons.1 hm with rfl | hm
      · exact absurd h.1 (by decide)
      · exact absurd (h.2 _ hm) (by decide)

namespace Source

/-- A raw word is plain as well, being an identifier behind its mark. -/
theorem Word.plainName (w : Word) : PlainName w.text := by
  have hw := w.isName_text
  unfold isName at hw
  split at hw
  · next name heq =>
    have hname := Text.dot_hyphen_not_mem_of_isIdentifier hw
    rw [PlainName, heq]
    refine ⟨List.cons_ne_nil _ _, ?_, ?_⟩
    · simpa using hname.2.1
    · simpa using hname.2.2
  · exact Text.dot_hyphen_not_mem_of_isIdentifier hw

/-! ## What a reader returns

`Yields` is a Hoare logic for readers that says nothing of the tokens, since whatever a type is made
from, its names are words. Its rules follow the combinators of the readers. -/

/-- Whatever the reader returns satisfies `P`. -/
def Yields {α : Type} (r : Reader α) (P : α → Prop) : Prop :=
  ∀ ts a rest, r.run ts = some (a, rest) → P a

namespace Yields

variable {α β : Type} {P : α → Prop} {Q : β → Prop}

theorem pure {a : α} (h : P a) : Yields (Pure.pure a) P := by
  intro ts b rest hr
  cases hr
  exact h

/-- A reader that fails returns nothing. -/
theorem failure : Yields (Alternative.failure : Reader α) P := by
  intro ts a rest hr
  cases hr

/-- The second reader may rely on what the first one returned. -/
theorem bind {r : Reader α} {f : α → Reader β} (hr : Yields r P)
    (hf : ∀ a, P a → Yields (f a) Q) : Yields (r >>= f) Q := by
  intro ts b rest h
  rw [StateT.run_bind] at h
  obtain ⟨⟨a, ts'⟩, ha, hb⟩ := Option.bind_eq_some_iff.1 h
  exact hf a (hr ts a ts' ha) ts' b rest hb

/-- Nothing is asked of what an earlier part returns. -/
theorem after {r : Reader α} {f : α → Reader β} (hf : ∀ a, Yields (f a) Q) : Yields (r >>= f) Q :=
  bind (P := fun _ => True) (fun _ _ _ _ => trivial) fun a _ => hf a

theorem ite {c : Prop} [Decidable c] {r s : Reader α} (hr : Yields r P) (hs : Yields s P) :
    Yields (if c then r else s) P := by
  split
  · exact hr
  · exact hs

/-- Reading to the end is reading. -/
theorem of_readAll? {r : Reader α} (hr : Yields r P) {ts : List Token} {a : α}
    (h : readAll? r ts = some a) : P a := by
  unfold readAll? at h
  split at h
  · next a' heq =>
    cases h
    exact hr ts a [] heq
  · cases h

/-- What stands in brackets is read to its end. -/
theorem group {d : Delimiter} {r : Reader α} (hr : Yields r P) : Yields (Source.group d r) P := by
  refine after fun body => ?_
  split
  · next a heq => exact pure (hr.of_readAll? heq)
  · exact failure

/-- The induction is on the fuel, which is more than there are tokens left. -/
theorem repeated {step : Reader (Option α)} (hs : Yields step fun o => ∀ a ∈ o, P a) :
    Yields (Source.repeated step) fun l => ∀ a ∈ l, P a := by
  refine after fun ts => ?_
  induction ts.length + 1 with
  | zero => exact pure (by simp)
  | succ n ih =>
    refine bind hs fun o ho => ?_
    cases o with
    | none => exact pure (by simp)
    | some a => exact bind ih fun l hl => pure (List.forall_mem_cons.2 ⟨ho a rfl, hl⟩)

/-- Each of the parts between the separators. -/
theorem separatedUntil {separator : String} {stop : List Token → Bool} {r : Reader α}
    (hr : Yields r P) : Yields (Source.separatedUntil separator stop r) fun l => ∀ a ∈ l, P a := by
  refine repeated (after fun ts => ite (pure (by simp)) ?_)
  refine bind hr fun a ha => after fun ts => ?_
  refine ite (after fun _ => ?_) ?_
  · exact pure (by simpa using ha)
  · exact pure (by simpa using ha)

theorem anyWord : Yields Source.anyWord PlainName := by
  refine after fun ts => ?_
  split
  · next w rest => exact after fun _ => pure w.plainName
  · exact failure

/-- An identifier is a word that is not reserved. -/
theorem identifier : Yields Source.identifier PlainName := after fun _ => anyWord

end Yields

/-! ## The parts of a type

Each part is read with a grammar for the types inside it. That this one reads well-named types is
the hypothesis, so the proofs go along the definitions without an induction of their own. -/

/-- Every type that the grammar reads is well-named. -/
def Grammar.ReadsWellNamed (g : Grammar) : Prop :=
  ∀ sums, Yields (g (.type sums)) fun t => t.meaning.WellNamed

namespace TypeSyntax

variable {g : Grammar}

/-- Lifetimes and constants are no types, and a type that is assigned to a name counts as itself. -/
theorem yields_argument (hg : g.ReadsWellNamed) :
    Yields (argument g) fun o => ∀ t ∈ o, t.WellNamed := by
  have none : Yields (pure Option.none : Reader (Option TypeExpr)) fun o => ∀ t ∈ o, t.WellNamed :=
    .pure (by simp)
  unfold argument
  refine .after fun ts => .ite (.after fun _ => none) (.ite (.after fun _ => none) ?_)
  refine .bind (hg true) fun t ht => ?_
  have whole : Yields (pure (some t.meaning) : Reader (Option TypeExpr))
      fun o => ∀ t ∈ o, t.WellNamed := .pure (by simpa using ht)
  refine .ite (.after fun assigned => ?_) whole
  refine .ite (.after fun _ => .ite (.after fun _ => none) (.after fun _ => none)) ?_
  exact .after fun _ => .ite (.after fun _ => none) whole

/-- The arguments that are types are all well-named. -/
theorem yields_angleArguments (hg : g.ReadsWellNamed) :
    Yields (angleArguments g) fun args => ∀ t ∈ args.filterMap id, t.WellNamed := by
  unfold angleArguments
  refine .after fun _ => .after fun _ => .bind (yields_argument hg).separatedUntil fun args ha => ?_
  refine .after fun _ => .pure fun t ht => ?_
  obtain ⟨o, ho, hot⟩ := List.mem_filterMap.1 ht
  exact ha o ho t hot

theorem wellNamed_of_plainName {name : String} (h : PlainName name) :
    TypeExpr.WellNamed ⟨name, []⟩ := ⟨h, trivial⟩

/-- A name, with the arguments behind it if there are any. -/
theorem yields_segment (hg : g.ReadsWellNamed) (inExpression : Bool) :
    Yields (segment g inExpression) fun s => s.meaning.WellNamed := by
  have named : ∀ name : String, PlainName name → Yields (do
      let ts ← get
      if (!inExpression && atMark "<" ts && !atMark "<=" ts && !atMark "<<=" ts) ||
          (atMark "::" ts && atMark "<" (ts.drop 2)) then
        let args ← angleArguments g
        return ⟨⟨name, args.filterMap id⟩, true, !args.isEmpty⟩
      else return { meaning := ⟨name, []⟩ } : Reader Segment) fun s => s.meaning.WellNamed := by
    intro name hn
    refine .after fun ts => .ite (.bind (yields_angleArguments hg) fun args ha => ?_) ?_
    · exact .pure (TypeExpr.wellNamed_iff.2 ⟨hn, ha⟩)
    · exact .pure (wellNamed_of_plainName hn)
  unfold segment
  refine .after fun _ => .ite ?_ (.after fun _ => .ite ?_ ?_)
  · exact .bind .anyWord fun w hw => .pure (wellNamed_of_plainName hw)
  · exact .bind .anyWord named
  · exact .bind .identifier named

/-- A path means what its last segment means. -/
theorem wellNamed_getLast {first : Segment} {rest : List Segment}
    (hf : first.meaning.WellNamed) (hr : ∀ s ∈ rest, s.meaning.WellNamed) :
    (rest.getLast?.getD first).meaning.WellNamed := by
  cases h : rest.getLast? with
  | none => exact hf
  | some s => exact hr s (List.mem_of_getLast? h)

/-- The segments behind the first one. -/
theorem yields_moreSegments (hg : g.ReadsWellNamed) (inExpression : Bool) :
    Yields (moreSegments g inExpression) fun l => ∀ s ∈ l, s.meaning.WellNamed := by
  refine .repeated (.after fun ts => .ite (.after fun _ => ?_) (.pure (by simp)))
  exact .bind (yields_segment hg inExpression) fun s hs => .pure (by simpa using hs)

theorem yields_path (hg : g.ReadsWellNamed) (inExpression : Bool) :
    Yields (path g inExpression) fun p => p.last.WellNamed := by
  unfold path
  refine .after fun _ => .bind (yields_segment hg inExpression) fun first hf => ?_
  exact .bind (yields_moreSegments hg inExpression) fun rest hr => .pure (wellNamed_getLast hf hr)

/-- The type in front of a qualified path is read, but it is no part of what the path means. -/
theorem yields_qualifiedPath (hg : g.ReadsWellNamed) (inExpression : Bool) :
    Yields (qualifiedPath g inExpression) fun p => p.last.WellNamed := by
  -- the rest behind the closing angle has two segments at least, and the last one counts
  have behind : Yields (do
      mark ">"
      mark "::"
      let first ← segment g inExpression
      let rest ← repeated do
        if ← mark? "::" then return some (← segment g inExpression) else return none
      let last := rest.getLast?.getD first
      return ⟨last.meaning, false, false, !last.filled, true⟩ : Reader ReadPath)
        fun p => p.last.WellNamed := by
    refine .after fun _ => .after fun _ => .bind (yields_segment hg inExpression) fun first hf => ?_
    refine .bind (P := fun l => ∀ s ∈ l, s.meaning.WellNamed) (.repeated ?_) fun rest hr => ?_
    · refine .after fun _ => .ite ?_ (.pure (by simp))
      exact .bind (yields_segment hg inExpression) fun s hs => .pure (by simpa using hs)
    · exact .pure (wellNamed_getLast hf hr)
  unfold qualifiedPath
  refine .after fun _ => .ite (.after fun _ => .after fun _ => ?_) (yields_path hg inExpression)
  exact .ite (.after fun _ => behind) behind

/-- A form without a name of its own means anything at all. -/
theorem wellNamed_free (form : TypeForm) : (free form).meaning.WellNamed :=
  TypeExpr.wellNamed_anything

/-- A single type in parentheses means what it means without them; a tuple has no name. -/
theorem yields_parenthesized (hg : g.ReadsWellNamed) :
    Yields (parenthesized g) fun t => t.meaning.WellNamed := by
  unfold parenthesized
  refine .after fun ts => .ite (.pure (wellNamed_free _)) (.ite ?_ ?_)
  · exact .after fun _ => .pure (wellNamed_free _)
  · refine .bind (hg true) fun first hf => .after fun _ => .ite ?_ (.pure hf)
    exact .after fun _ => .pure (wellNamed_free _)

/-- Parentheses may also be the beginning of a sum of bounds. -/
theorem yields_inParens (hg : g.ReadsWellNamed) (sums : Bool) :
    Yields (inParens g sums) fun t => t.meaning.WellNamed := by
  unfold inParens
  refine .after fun body => .ite ?_ ?_
  · split
    · exact .failure
    · exact .after fun _ => .pure (wellNamed_free _)
  · dsimp only
    split
    · exact .failure
    · next t heq =>
      have ht := (yields_parenthesized hg).of_readAll? heq
      exact .after fun _ => .ite (.after fun _ => .pure (wellNamed_free _)) (.pure ht)

/-- A path may turn out to be the name of a macro or the first of several bounds. -/
theorem yields_fromPath (hg : g.ReadsWellNamed) (sums binder : Bool) :
    Yields (fromPath g sums binder) fun t => t.meaning.WellNamed := by
  unfold fromPath
  refine .bind (yields_qualifiedPath hg false) fun p hp => .ite (.pure hp) (.after fun ts => ?_)
  refine .ite (.after fun _ => .after fun _ => .pure (wellNamed_free _)) (.ite ?_ (.ite ?_ ?_))
  · exact .after fun _ => .pure (wellNamed_free _)
  · exact .pure (wellNamed_free _)
  · exact .pure hp

/-- Slices and arrays are lists. -/
theorem yields_inBrackets (hg : g.ReadsWellNamed) : Yields (inBrackets g) TypeExpr.WellNamed := by
  have list : ∀ t : ReadType, t.meaning.WellNamed →
      Yields (pure (.listOf t.meaning) : Reader TypeExpr) TypeExpr.WellNamed :=
    fun t ht => .pure ⟨by decide, ht, trivial⟩
  unfold inBrackets
  refine .bind (hg true) fun t ht => .after fun _ => ?_
  exact .ite (.after fun _ => list t ht) (list t ht)

/-- The cases are those of the reader, in its order. -/
theorem yields_read (hg : g.ReadsWellNamed) (sums : Bool) :
    Yields (TypeSyntax.read g sums) fun t => t.meaning.WellNamed := by
  -- most forms are read for their extent only and mean anything at all
  have freely : ∀ form : TypeForm,
      Yields (pure (free form) : Reader ReadType) fun t => t.meaning.WellNamed :=
    fun form => .pure (wellNamed_free form)
  have referred : Yields (do
      let _ ← word? "mut"
      let t ← g (.type false)
      return ⟨t.meaning, .other⟩ : Reader ReadType) fun t => t.meaning.WellNamed :=
    .after fun _ => .bind (hg false) fun t ht => .pure ht
  unfold TypeSyntax.read
  -- one `refine` for each group of branches, in the order of the definition
  refine .after fun binder => .after fun ts => .ite .failure (.ite (yields_inParens hg sums) ?_)
  refine .ite (.after fun _ => freely _) (.ite (yields_fromPath hg sums binder) ?_)
  refine .ite (.after fun _ => .after fun _ => .after fun _ => freely _) ?_
  refine .ite ?_ (.ite ?_ (.ite ?_ ?_))
  · exact .bind (yields_inBrackets hg).group fun t ht => .pure ht
  · refine .after fun _ => .after fun _ => .ite ?_ (.after fun _ => ?_)
    · exact .after fun _ => freely _
    · exact .after fun _ => freely _
  · exact .after fun _ => .after fun _ => .ite (.after fun _ => referred) referred
  · refine .ite (.after fun _ => freely _) (.ite ?_ (.ite (.after fun _ => freely _) ?_))
    · exact .after fun _ => .after fun _ => freely _
    · exact .ite (.after fun _ => freely _) .failure

end TypeSyntax

/-! ## The whole grammar

The grammar is defined by how deep types are nested, and the induction is on this depth. -/

/-- With no depth left nothing is read. -/
theorem Grammar.readsWellNamed_upTo (n : Nat) : (Grammar.upTo n).ReadsWellNamed := by
  induction n with
  | zero => exact fun _ => .failure
  | succ n ih => exact fun sums => TypeSyntax.yields_read ih sums

/-- A type expression that can be read has plain names only. -/
theorem wellNamed_of_typeExpr? {text : String} {t : TypeExpr} (h : typeExpr? text = some t) :
    t.WellNamed := by
  unfold typeExpr? at h
  obtain ⟨ts, -, hread⟩ := Option.bind_eq_some_iff.1 h
  obtain ⟨r, hr, rfl⟩ := Option.map_eq_some_iff.1 hread
  exact (TypeSyntax.yields_read (Grammar.readsWellNamed_upTo _) true).of_readAll? hr

/-! ## Keys of types that are read

Types with the same key are the same, as far as their names are plain. That covers all types that
are read from text, as shown above. -/

/-- No two types share a key, although closing points are dropped from it, as long as no name holds
what structures a key; and no type that is read from text has such a name. -/
theorem refKey_injOn_wellNamed :
    Set.InjOn TypeExpr.refKey {t | t.WellNamed} ∧
      {t | ∃ text, typeExpr? text = some t} ⊆ {t | t.WellNamed} := by
  constructor
  · intro s hs t ht hkey
    exact TypeExpr.refKey_injective hs ht hkey
  · rintro t ⟨text, htext⟩
    exact wellNamed_of_typeExpr? htext

/-- A pair of a page of users and a team. -/
def pageAndTeam : TypeExpr := ⟨"Pair", [⟨"Page", [⟨"User", []⟩]⟩, ⟨"Team", []⟩]⟩

/-- The same names, but the team is an argument of the page. -/
def pageOfTeam : TypeExpr := ⟨"Pair", [⟨"Page", [⟨"User", []⟩, ⟨"Team", []⟩]⟩]⟩

example :
    pageAndTeam.refKey = "Pair.Page.User.-Team" ∧ pageOfTeam.refKey = "Pair.Page.User-Team" := by
  decide

/-- Types that differ only in where a list of arguments closes have different keys. -/
theorem refKey_pageAndTeam_ne :
    pageAndTeam.WellNamed ∧ pageOfTeam.WellNamed ∧ pageAndTeam.refKey ≠ pageOfTeam.refKey := by
  have hpair : pageAndTeam.WellNamed := by decide
  have hpage : pageOfTeam.WellNamed := by decide
  exact ⟨hpair, hpage, refKey_injOn_wellNamed.1.ne hpair hpage (by decide)⟩

end Source

end EndpointDocs
