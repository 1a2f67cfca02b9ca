import EndpointDocs.Proofs.Schema.Widening
import EndpointDocs.Registry

/-!
# Unions in a schema

`unions` lists the alternatives of every union that stands somewhere in a schema. Widening keeps the
alternatives of all unions distinct (`Separated.widen`), but it does not look into what is added: a
union with other alternatives becomes one alternative. So the unions stay flat only as long as no
union is added but the known one (`flat_widen_iff`).

A schema that a unit leads to is built by widening alone, from schemas of types, so these lemmas are
all that is needed to follow the unions in an operation.
-/

namespace EndpointDocs.Schema

variable {s o g : Schema} {gs us : List Schema}

mutual

/-- The alternatives of every union in a schema, from the top down. -/
def unions : Schema → List (List Schema)
  | ⟨_, _, _, properties, _, items, values, _, _, alternatives, _⟩ =>
    unionsOfProperties properties ++ unionsOfOptional items ++ unionsOfOptional values ++
      unionsOfAlternatives alternatives

def unionsOfProperties : List (String × Schema) → List (List Schema)
  | [] => []
  | (_, s) :: rest => unions s ++ unionsOfProperties rest

def unionsOfOptional : Option Schema → List (List Schema)
  | none => []
  | some s => unions s

def unionsOfAlternatives : Option (List Schema) → List (List Schema)
  | none => []
  | some alternatives => alternatives :: unionsOfAll alternatives

def unionsOfAll : List Schema → List (List Schema)
  | [] => []
  | s :: rest => unions s ++ unionsOfAll rest

end

/-- Every union has several alternatives, of different shapes. -/
def Separated (s : Schema) : Prop :=
  ∀ gs ∈ s.unions, 2 ≤ gs.length ∧ gs.Pairwise fun g h => g.sameShape h = false

/-- No alternative of a union is a union. -/
def Flat (s : Schema) : Prop := ∀ gs ∈ s.unions, ∀ g ∈ gs, g.anyOf = none

/-- The schema is a union, or it has no alternatives. -/
def Plain (s : Schema) : Prop := s.anyOf = none ∨ s.isUnion = true

/-! ## Schemas without unions

Wrapping and examples leave unions alone. A schema without unions is both separated and flat. -/

@[simp] theorem unions_with_sample (s : Schema) (sample : Option Json) :
    ({ s with sample := sample } : Schema).unions = s.unions := by
  cases s
  rfl

@[simp] theorem unions_adoptSample (s other : Schema) : (s.adoptSample other).unions = s.unions :=
  unions_with_sample s _

/-- The induction is on the wrappers, each of which has one part. -/
theorem unions_wrap (ws : List Wrapper) (s : Schema) : (wrap ws s).unions = s.unions := by
  induction ws with
  | nil => rfl
  | cons w ws ih =>
    rw [← ih]
    cases w with
    | list =>
      show [] ++ (wrap ws s).unions ++ [] ++ [] = (wrap ws s).unions
      simp only [List.nil_append, List.append_nil]
    | map =>
      show [] ++ [] ++ (wrap ws s).unions ++ [] = (wrap ws s).unions
      simp only [List.nil_append, List.append_nil]

/-- The alternatives at the top are a union. -/
theorem mem_unions_of_anyOf (h : s.anyOf = some gs) : gs ∈ s.unions := by
  cases s
  cases h
  exact List.mem_append_right _ List.mem_cons_self

/-- Without unions there is none at the top. -/
theorem anyOf_of_unions_eq_nil (h : s.unions = []) : s.anyOf = none := by
  cases hs : s.anyOf with
  | none => rfl
  | some gs =>
    have hmem := mem_unions_of_anyOf hs
    rw [h] at hmem
    cases hmem

/-- Schemas of one shape have both alternatives or none. -/
theorem anyOf_of_sameShape (h : s.sameShape o = true) (hs : s.anyOf = none) : o.anyOf = none := by
  have hshape : ∀ t : Schema, t.shape.anyOf.isSome = t.anyOf.isSome := by
    intro t
    obtain ⟨_, _, _, _, _, _, _, _, _, alternatives, _⟩ := t
    cases alternatives <;> rfl
  have hsome : s.anyOf.isSome = o.anyOf.isSome := by
    rw [← hshape s, sameShape_iff.1 h, hshape o]
  rw [hs] at hsome
  exact Option.isSome_eq_false_iff.1 hsome.symm |> Option.isNone_iff_eq_none.1

/-- There is nothing to separate. -/
theorem separated_of_unions_eq_nil (h : s.unions = []) : s.Separated := by
  intro gs hgs
  rw [h] at hgs
  cases hgs

/-- There is nothing to flatten. -/
theorem flat_of_unions_eq_nil (h : s.unions = []) : s.Flat := by
  intro gs hgs
  rw [h] at hgs
  cases hgs

/-! ## Widening a schema

What widening does to the unions is one lemma (`mem_unions_widen`), and that they stay separated and
flat is read off its cases. -/

/-- The unions inside alternatives. -/
theorem mem_unionsOfAll : us ∈ unionsOfAll gs ↔ ∃ g ∈ gs, us ∈ g.unions := by
  induction gs with
  | nil => simp [unionsOfAll]
  | cons g rest ih => simp [unionsOfAll, ih]

/-- A new union is one by itself, and has those inside. -/
theorem mem_unions_union : us ∈ (union gs).unions ↔ us = gs ∨ ∃ g ∈ gs, us ∈ g.unions := by
  have hunions : (union gs).unions = gs :: unionsOfAll gs := rfl
  rw [hunions, List.mem_cons, mem_unionsOfAll]

/-- Of new unions there is only the one at the top. -/
theorem mem_unions_widen (h : us ∈ (s.widen o).unions) :
    us ∈ s.unions ∨ us ∈ o.unions ∨ s.sameShape o = false ∧
      ((s.isUnion = false ∧ us = [s, o]) ∨
        ∃ gs, s.anyOf = some gs ∧ us = addAlternative o gs) := by
  by_cases hsame : s.sameShape o = true
  · rw [widen_of_sameShape hsame, unions_adoptSample] at h
    exact .inl h
  · have hother : s.sameShape o = false := Bool.eq_false_iff.2 hsame
    -- a union that is there gets an alternative, and anything else becomes one
    cases hs : s.isUnion with
    | false =>
      rw [widen_of_plain hother hs, mem_unions_union] at h
      rcases h with rfl | ⟨g, hg, hus⟩
      · exact .inr (.inr ⟨hother, .inl ⟨rfl, rfl⟩⟩)
      · rcases List.mem_cons.1 hg with rfl | hg
        · exact .inl hus
        · exact .inr (.inl (List.mem_singleton.1 hg ▸ hus))
    | true =>
      obtain ⟨gs, hgs⟩ := exists_anyOf_of_isUnion hs
      rw [widen_of_union hother hs hgs] at h
      cases s
      cases hgs
      simp only [unions, unionsOfAlternatives, List.mem_append, List.mem_cons] at h ⊢
      rcases h with h | h | h
      · exact .inl (.inl h)
      · exact .inr (.inr ⟨hother, .inr ⟨gs, rfl, h⟩⟩)
      · -- below the union the alternatives have what they had; an example adds none
        obtain ⟨g, hg, hus⟩ := mem_unionsOfAll.1 h
        rcases mem_addAlternative hg with ⟨known, hknown, rfl | rfl⟩ | rfl
        · exact .inl (.inr (.inr (mem_unionsOfAll.2 ⟨g, hknown, hus⟩)))
        · rw [unions_adoptSample] at hus
          exact .inl (.inr (.inr (mem_unionsOfAll.2 ⟨known, hknown, hus⟩)))
        · exact .inr (.inl hus)

/-- No alternative goes away. -/
theorem length_le_addAlternative (o : Schema) (gs : List Schema) :
    gs.length ≤ (addAlternative o gs).length := by
  induction gs with
  | nil => exact Nat.zero_le _
  | cons g rest ih =>
    rw [addAlternative]
    split
    · exact Nat.le_refl _
    · exact Nat.succ_le_succ ih

/-- An alternative is added only if no other one has its shape. -/
theorem pairwise_addAlternative (h : gs.Pairwise fun g h => g.sameShape h = false) :
    (addAlternative o gs).Pairwise fun g h => g.sameShape h = false := by
  induction gs with
  | nil => exact List.pairwise_singleton _ o
  | cons g rest ih =>
    obtain ⟨hg, hrest⟩ := List.pairwise_cons.1 h
    by_cases hsame : g.sameShape o = true
    · rw [addAlternative_cons_of_sameShape hsame]
      exact List.pairwise_cons.2 ⟨hg, hrest⟩
    · have hother : g.sameShape o = false := Bool.eq_false_iff.2 hsame
      rw [addAlternative_cons_of_not_sameShape hother]
      refine List.pairwise_cons.2 ⟨fun t ht => ?_, ih hrest⟩
      -- whatever stands behind the first one is known, lends its example, or is the new one
      rcases mem_addAlternative ht with ⟨known, hknown, rfl | rfl⟩ | rfl
      · exact hg t hknown
      · rw [sameShape_adoptSample_right]
        exact hg known hknown
      · exact hother

/-- Alternatives that are known already are not repeated. -/
theorem Separated.widen (h : s.Separated) (h' : o.Separated) : (s.widen o).Separated := by
  intro us hus
  rcases mem_unions_widen hus with hus | hus | ⟨hother, ⟨-, rfl⟩ | ⟨gs, hgs, rfl⟩⟩
  · exact h us hus
  · exact h' us hus
  · exact ⟨Nat.le_refl 2, List.pairwise_pair.2 hother⟩
  · obtain ⟨hseveral, hdistinct⟩ := h gs (mem_unions_of_anyOf hgs)
    exact ⟨Nat.le_trans hseveral (length_le_addAlternative o gs), pairwise_addAlternative hdistinct⟩

/-- Widening makes unions and nothing else that has alternatives. -/
theorem Plain.widen (h : s.Plain) : (s.widen o).Plain := by
  by_cases hsame : s.sameShape o = true
  · rw [widen_of_sameShape hsame]
    exact h
  · have hother : s.sameShape o = false := Bool.eq_false_iff.2 hsame
    cases hs : s.isUnion with
    | false =>
      rw [widen_of_plain hother hs]
      exact .inr rfl
    | true =>
      obtain ⟨gs, hgs⟩ := exists_anyOf_of_isUnion hs
      rw [widen_of_union hother hs hgs]
      exact .inr (isUnion_with_alternatives hs)

/-- A flat schema stays flat exactly if no union is added to it but itself. -/
theorem flat_widen_iff (hs : s.Plain) (h : s.Flat) (h' : o.Flat) :
    (s.widen o).Flat ↔ o.anyOf = none ∨ s.sameShape o = true := by
  constructor
  · intro hflat
    by_contra hnot
    obtain ⟨hunion, hsame⟩ := not_or.1 hnot
    have hother : s.sameShape o = false := Bool.eq_false_iff.2 hsame
    -- one of the alternatives has the shape of `o`
    obtain ⟨us, hus, g, hg, hshape⟩ : ∃ us, (s.widen o).anyOf = some us ∧
        ∃ g ∈ us, g.sameShape o = true := by
      cases hs : s.isUnion with
      | false =>
        rw [widen_of_plain hother hs]
        exact ⟨_, rfl, o, List.mem_cons_of_mem _ (List.mem_singleton_self o), sameShape_refl o⟩
      | true =>
        obtain ⟨gs, hgs⟩ := exists_anyOf_of_isUnion hs
        rw [widen_of_union hother hs hgs]
        exact ⟨_, rfl, exists_sameShape_addAlternative o gs⟩
    exact hunion (anyOf_of_sameShape hshape (hflat us (mem_unions_of_anyOf hus) g hg))
  · intro hadded us hus
    rcases mem_unions_widen hus with hus | hus | ⟨hother, hnew⟩
    · exact h us hus
    · exact h' us hus
    · have ho : o.anyOf = none := hadded.resolve_right (by rw [hother]; exact Bool.false_ne_true)
      rcases hnew with ⟨hunion, rfl⟩ | ⟨gs, hgs, rfl⟩
      · intro g hg
        rcases List.mem_cons.1 hg with rfl | hg
        · exact hs.resolve_right (by rw [hunion]; exact Bool.false_ne_true)
        · exact List.mem_singleton.1 hg ▸ ho
      · intro g hg
        rcases mem_addAlternative hg with ⟨known, hknown, rfl | rfl⟩ | rfl
        · exact h gs (mem_unions_of_anyOf hgs) g hknown
        · exact h gs (mem_unions_of_anyOf hgs) known hknown
        · exact ho

/-! ## Widening by a list

The first schema may be a union already, as that of an earlier tag; those that are added may not. -/

/-- Schemas without unions make a flat one. The induction is on the list. -/
theorem foldl_widen_flat (hs : s.Plain) (hseparated : s.Separated) (hflat : s.Flat)
    (h : ∀ o ∈ gs, o.unions = []) :
    (gs.foldl widen s).Plain ∧ (gs.foldl widen s).Separated ∧ (gs.foldl widen s).Flat := by
  induction gs generalizing s with
  | nil => exact ⟨hs, hseparated, hflat⟩
  | cons o rest ih =>
    have ho := h o List.mem_cons_self
    refine ih hs.widen (hseparated.widen (separated_of_unions_eq_nil ho)) ?_
      fun o ho => h o (List.mem_cons_of_mem _ ho)
    exact (flat_widen_iff hs hflat (flat_of_unions_eq_nil ho)).2 (.inl (anyOf_of_unions_eq_nil ho))

/-- Schemas of one shape only lend their examples. -/
theorem anyOf_foldl_widen (h : ∀ o ∈ gs, s.sameShape o = true) :
    (gs.foldl widen s).anyOf = s.anyOf := by
  induction gs generalizing s with
  | nil => rfl
  | cons o rest ih =>
    rw [List.foldl_cons, widen_of_sameShape (h o List.mem_cons_self)]
    refine ih fun t ht => ?_
    rw [sameShape_adoptSample_left]
    exact h t (List.mem_cons_of_mem _ ht)

end EndpointDocs.Schema
