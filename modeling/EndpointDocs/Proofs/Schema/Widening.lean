import EndpointDocs.Proofs.Schema.Shapes

/-!
# Widening

Widening collects shapes. From a list of schemas without unions it makes the list of their distinct
shapes, in the order in which they first occur (`foldl_widen_eq_joined`): a single shape stands for
itself, several ones are the alternatives of a union. Accepting a schema once more changes nothing
(`widen_widen`), also if both schemas are unions.
-/

namespace EndpointDocs.Schema

variable {s t o : Schema} {ss gs : List Schema}

/-! ## Distinct shapes

The list is described without the fold: which shapes there are, in which order, and which example
each one gets. Taking the first schema apart (`distinctShapes_cons`) is what brings it to the fold.
-/

/-- The first example that the list has for a shape. -/
def firstSample? (g : Schema) (ss : List Schema) : Option Json :=
  (ss.filter g.sameShape).findSome? sample

/-- The first schema of each shape, with the first example that the list has for the shape. -/
def distinctShapes (ss : List Schema) : List Schema :=
  (ss.eraseDupsBy sameShape).map fun g => { g with sample := firstSample? g ss }

/-- A single shape stands for itself, others are alternatives. -/
def joined : List Schema → Schema
  | [g] => g
  | gs => union gs

/-- A schema of the shape comes first with its example, if it has one. -/
theorem firstSample?_cons (g : Schema) (h : g.sameShape s = true) :
    firstSample? g (s :: ss) = (s.sample <|> firstSample? g ss) := by
  rw [firstSample?, List.filter_cons_of_pos h, List.findSome?_cons]
  cases s.sample <;> rfl

/-- The shape decides, not the schema. -/
theorem firstSample?_congr (h : s.sameShape t = true) : firstSample? s ss = firstSample? t ss := by
  have hpredicate : s.sameShape = t.sameShape := funext (sameShape_congr h)
  rw [firstSample?, hpredicate]
  rfl

/-- What has another shape has no example to give. -/
theorem firstSample?_filter (h : s.sameShape t = false) :
    firstSample? t (ss.filter fun o => !s.sameShape o) = firstSample? t ss := by
  rw [firstSample?, List.filter_filter, firstSample?]
  congr 1
  refine List.filter_congr fun o _ => ?_
  by_cases ho : t.sameShape o = true
  · have hother : s.sameShape o = false :=
      Bool.eq_false_iff.2 fun hs => by rw [sameShape_trans hs (sameShape_symm ho)] at h; cases h
    rw [ho, hother]
    rfl
  · rw [Bool.eq_false_iff.2 ho, Bool.false_and]

/-- The induction is on the length of the list, as later occurrences leave it. -/
theorem mem_of_mem_eraseDupsBy {g : Schema} :
    ∀ {ss : List Schema}, g ∈ ss.eraseDupsBy sameShape → g ∈ ss
  | [], h => h
  | s :: ss, h => by
    rw [List.eraseDupsBy_cons] at h
    rcases List.mem_cons.1 h with rfl | h
    · exact List.mem_cons_self
    · exact List.mem_cons_of_mem _ (List.mem_of_mem_filter (mem_of_mem_eraseDupsBy h))
termination_by ss => ss.length
decreasing_by exact Nat.lt_succ_of_le (List.length_filter_le _ _)

/-- The rest of the list counts only with its other shapes. -/
theorem distinctShapes_cons (s : Schema) (ss : List Schema) : distinctShapes (s :: ss) =
    { s with sample := s.sample <|> firstSample? s ss } ::
      distinctShapes (ss.filter fun o => !s.sameShape o) := by
  have hfilter : (ss.filter fun o => decide (o.sameShape s = false)) =
      ss.filter fun o => !s.sameShape o := by
    refine List.filter_congr fun o _ => ?_
    rw [sameShape_comm o s]
    cases s.sameShape o <;> rfl
  rw [distinctShapes, List.eraseDupsBy_cons, List.map_cons, hfilter,
    firstSample?_cons s (sameShape_refl s)]
  congr 1
  refine List.map_congr_left fun g hg => ?_
  -- the shapes behind the first one are other shapes, so its items lend them no example
  have hother : s.sameShape g = false := by
    simpa using (List.mem_filter.1 (mem_of_mem_eraseDupsBy hg)).2
  have hsample : firstSample? g (s :: ss) = firstSample? g ss := by
    rw [firstSample?, List.filter_cons_of_neg]
    · rfl
    · rw [sameShape_comm, hother]
      exact Bool.false_ne_true
  rw [hsample, firstSample?_filter hother]

/-! ## Alternatives

A union takes up one schema at a time: an alternative of the same shape takes the example, or else
the schema goes to the end. -/

/-- The first alternative has the shape, so the others are not looked at. -/
theorem addAlternative_cons_of_sameShape (h : t.sameShape o = true) (gs : List Schema) :
    addAlternative o (t :: gs) = t.adoptSample o :: gs := if_pos h

theorem addAlternative_cons_of_not_sameShape (h : t.sameShape o = false) (gs : List Schema) :
    addAlternative o (t :: gs) = t :: addAlternative o gs :=
  if_neg (Bool.eq_false_iff.1 h)

/-- An alternative is one that was known, perhaps with an example more, or the new one. -/
theorem mem_addAlternative (h : t ∈ addAlternative o gs) :
    (∃ g ∈ gs, t = g ∨ t = g.adoptSample o) ∨ t = o := by
  induction gs with
  | nil => exact .inr (List.mem_singleton.1 h)
  | cons g rest ih =>
    by_cases hg : g.sameShape o = true
    · rw [addAlternative_cons_of_sameShape hg] at h
      rcases List.mem_cons.1 h with rfl | h
      · exact .inl ⟨g, List.mem_cons_self, .inr rfl⟩
      · exact .inl ⟨t, List.mem_cons_of_mem _ h, .inl rfl⟩
    · rw [addAlternative_cons_of_not_sameShape (Bool.eq_false_iff.2 hg)] at h
      rcases List.mem_cons.1 h with rfl | h
      · exact .inl ⟨t, List.mem_cons_self, .inl rfl⟩
      · refine (ih h).imp_left ?_
        rintro ⟨known, hknown, heq⟩
        exact ⟨known, List.mem_cons_of_mem _ hknown, heq⟩

/-- The new shape is among the alternatives. -/
theorem exists_sameShape_addAlternative (o : Schema) (gs : List Schema) :
    ∃ g ∈ addAlternative o gs, g.sameShape o = true := by
  induction gs with
  | nil => exact ⟨o, List.mem_singleton_self o, sameShape_refl o⟩
  | cons g rest ih =>
    by_cases hg : g.sameShape o = true
    · rw [addAlternative_cons_of_sameShape hg]
      exact ⟨_, List.mem_cons_self, hg⟩
    · rw [addAlternative_cons_of_not_sameShape (Bool.eq_false_iff.2 hg)]
      obtain ⟨known, hknown, hsame⟩ := ih
      exact ⟨known, List.mem_cons_of_mem _ hknown, hsame⟩

/-- An alternative that is there takes no second example. -/
theorem addAlternative_addAlternative (o : Schema) (gs : List Schema) :
    addAlternative o (addAlternative o gs) = addAlternative o gs := by
  induction gs with
  | nil =>
    show addAlternative o [o] = [o]
    rw [addAlternative_cons_of_sameShape (sameShape_refl o), adoptSample_self]
  | cons g rest ih =>
    by_cases hg : g.sameShape o = true
    · rw [addAlternative_cons_of_sameShape hg,
        addAlternative_cons_of_sameShape (by rw [sameShape_adoptSample_left, hg]),
        adoptSample_adoptSample]
    · have hother : g.sameShape o = false := Bool.eq_false_iff.2 hg
      rw [addAlternative_cons_of_not_sameShape hother,
        addAlternative_cons_of_not_sameShape hother, ih]

/-- The first alternative takes the first example of its shape, the others of the list go past it.
-/
theorem foldl_addAlternative_cons (g : Schema) (gs ss : List Schema) :
    ss.foldl (fun gs o => addAlternative o gs) (g :: gs) =
      { g with sample := g.sample <|> firstSample? g ss } ::
        (ss.filter fun o => !g.sameShape o).foldl (fun gs o => addAlternative o gs) gs := by
  induction ss generalizing g gs with
  | nil =>
    obtain ⟨_, _, _, _, _, _, _, _, _, _, sample⟩ := g
    cases sample <;> rfl
  | cons o rest ih =>
    rw [List.foldl_cons]
    -- an alternative of the shape is met by the first one, and leaves only its example
    by_cases ho : g.sameShape o = true
    · have hsample : ((g.sample <|> o.sample) <|> firstSample? g rest) =
          (g.sample <|> firstSample? g (o :: rest)) := by
        rw [firstSample?_cons g ho]
        cases g.sample <;> rfl
      rw [addAlternative_cons_of_sameShape ho, ih, List.filter_cons_of_neg (by rw [ho]; decide),
        firstSample?_congr (s := g.adoptSample o) (t := g) (sameShape_refl g), ← hsample]
      rfl
    · have hother : g.sameShape o = false := Bool.eq_false_iff.2 ho
      -- and any other one goes past it
      have hsample : firstSample? g (o :: rest) = firstSample? g rest := by
        rw [firstSample?, List.filter_cons_of_neg ho]
        rfl
      rw [addAlternative_cons_of_not_sameShape hother, ih, hsample,
        List.filter_cons_of_pos (by rw [hother]; rfl), List.foldl_cons]

/-- Adding alternatives one by one makes the list of distinct shapes. The induction is on the length
of the list, of which the shape of the first schema is taken out. -/
theorem foldl_addAlternative_nil :
    ∀ ss : List Schema, ss.foldl (fun gs o => addAlternative o gs) [] = distinctShapes ss
  | [] => rfl
  | s :: ss => by
    rw [List.foldl_cons]
    show ss.foldl (fun gs o => addAlternative o gs) [s] = _
    rw [foldl_addAlternative_cons, distinctShapes_cons, foldl_addAlternative_nil]
termination_by ss => ss.length
decreasing_by exact Nat.lt_succ_of_le (List.length_filter_le _ _)

/-- The shapes of the list are distinct. -/
theorem distinctShapes_pairwise :
    ∀ ss : List Schema, (distinctShapes ss).Pairwise fun g h => g.sameShape h = false
  | [] => .nil
  | s :: ss => by
    rw [distinctShapes_cons]
    refine List.pairwise_cons.2 ⟨fun g hg => ?_, distinctShapes_pairwise _⟩
    obtain ⟨first, hfirst, rfl⟩ := List.mem_map.1 hg
    show s.sameShape first = false
    simpa using (List.mem_filter.1 (mem_of_mem_eraseDupsBy hfirst)).2
termination_by ss => ss.length
decreasing_by exact Nat.lt_succ_of_le (List.length_filter_le _ _)

/-! ## Widening

The three cases of widening: the same shape, a union, and anything else. Doing it twice is
idempotent in each, as the result has an alternative of the shape that is accepted. -/

/-- The same shape: only the example may be new. -/
theorem widen_of_sameShape (h : s.sameShape o = true) : s.widen o = s.adoptSample o := if_pos h

/-- A union has one more alternative, or an example more. -/
theorem widen_of_union (h : s.sameShape o = false) (hs : s.isUnion = true)
    (hgs : s.anyOf = some gs) :
    s.widen o = { s with anyOf := some (addAlternative o gs) } := by
  unfold widen
  rw [if_neg (Bool.eq_false_iff.1 h), hs, hgs]

/-- Two shapes are the alternatives of a new union. -/
theorem widen_of_plain (h : s.sameShape o = false) (hs : s.isUnion = false) :
    s.widen o = union [s, o] := by
  unfold widen
  rw [if_neg (Bool.eq_false_iff.1 h), hs]

/-- A union has its alternatives. -/
theorem exists_anyOf_of_isUnion (h : s.isUnion = true) : ∃ gs, s.anyOf = some gs := by
  rw [← Option.isSome_iff_exists]
  simp only [isUnion, Bool.and_eq_true] at h
  exact h.1.1

/-- A union with other alternatives is a union. -/
theorem isUnion_with_alternatives (h : s.isUnion = true) :
    ({ s with anyOf := some gs } : Schema).isUnion = true := by
  simp only [isUnion, Bool.and_eq_true] at h ⊢
  exact ⟨⟨rfl, h.1.2⟩, h.2⟩

/-- Of the two shapes it is the union that decides; the accepted schema may be a union as well. -/
theorem widen_widen_of_union (h : s.sameShape o = false) (hs : s.isUnion = true)
    (hgs : s.anyOf = some gs) : (s.widen o).widen o = s.widen o := by
  obtain ⟨g, hg, hsame⟩ := exists_sameShape_addAlternative o gs
  rw [widen_of_union h hs hgs]
  -- If the union had the shape of `o` it would have that of its alternative `g`.
  have hother : ({ s with anyOf := some (addAlternative o gs) } : Schema).sameShape o = false := by
    rw [sameShape_comm, ← sameShape_congr hsame, sameShape_comm]
    exact sameShape_eq_false_of_mem rfl hg
  rw [widen_of_union hother (isUnion_with_alternatives hs) rfl, addAlternative_addAlternative]

/-- Accepting a schema again changes nothing. -/
theorem widen_widen (s o : Schema) : (s.widen o).widen o = s.widen o := by
  by_cases hsame : s.sameShape o = true
  · rw [widen_of_sameShape hsame, widen_of_sameShape (by rw [sameShape_adoptSample_left, hsame]),
      adoptSample_adoptSample]
  · have hother : s.sameShape o = false := Bool.eq_false_iff.2 hsame
    cases hs : s.isUnion with
    | true =>
      obtain ⟨gs, hgs⟩ := exists_anyOf_of_isUnion hs
      exact widen_widen_of_union hother hs hgs
    | false =>
      -- the union that was made is widened once more: it has the shape by now
      have hlarger : (union [s, o]).sameShape o = false :=
        sameShape_eq_false_of_mem rfl (List.mem_cons_of_mem _ (List.mem_singleton_self o))
      rw [widen_of_plain hother hs, widen_of_union hlarger rfl rfl,
        addAlternative_cons_of_not_sameShape hother,
        addAlternative_cons_of_sameShape (sameShape_refl o), adoptSample_self]
      rfl

/-! ## Widening by a list

As long as no union is accepted, the fold of `widen` goes along with that of `addAlternative`. A
union among the schemas would be an alternative by itself, so that shapes could be in two places. -/

/-- A schema that is no union widens a list of alternatives, whether they stand alone or not. -/
theorem widen_joined (hgs : gs ≠ []) (hplain : ∀ g ∈ gs, g.isUnion = false)
    (ho : o.isUnion = false) : (joined gs).widen o = joined (addAlternative o gs) := by
  match gs with
  | [] => exact absurd rfl hgs
  | [g] =>
    show g.widen o = _
    by_cases hg : g.sameShape o = true
    · rw [widen_of_sameShape hg, addAlternative_cons_of_sameShape hg]
      rfl
    · have hother : g.sameShape o = false := Bool.eq_false_iff.2 hg
      rw [widen_of_plain hother (hplain g (List.mem_singleton_self g)),
        addAlternative_cons_of_not_sameShape hother]
      rfl
  | g :: g' :: rest =>
    have hother : (union (g :: g' :: rest)).sameShape o = false := by
      refine Bool.eq_false_iff.2 fun hsame => ?_
      have hunion := isUnion_eq_of_sameShape hsame
      rw [ho] at hunion
      cases hunion
    show (union (g :: g' :: rest)).widen o = _
    rw [widen_of_union hother rfl rfl]
    -- one alternative of the shape is all that is left, or a second one makes a union
    by_cases hg : g.sameShape o = true
    · rw [addAlternative_cons_of_sameShape hg]
      rfl
    · rw [addAlternative_cons_of_not_sameShape (Bool.eq_false_iff.2 hg)]
      by_cases hg' : g'.sameShape o = true
      · rw [addAlternative_cons_of_sameShape hg']
        rfl
      · rw [addAlternative_cons_of_not_sameShape (Bool.eq_false_iff.2 hg')]
        rfl

/-- There is always an alternative, so `joined` is never the empty union. -/
theorem addAlternative_ne_nil (o : Schema) (gs : List Schema) : addAlternative o gs ≠ [] := by
  obtain ⟨g, hg, -⟩ := exists_sameShape_addAlternative o gs
  exact List.ne_nil_of_mem hg

/-- Examples do not make a union. -/
theorem isUnion_of_mem_addAlternative (hgs : ∀ g ∈ gs, g.isUnion = false)
    (ho : o.isUnion = false) : ∀ g ∈ addAlternative o gs, g.isUnion = false := by
  intro g hg
  rcases mem_addAlternative hg with ⟨known, hknown, rfl | rfl⟩ | rfl
  · exact hgs g hknown
  · rw [isUnion_adoptSample, hgs known hknown]
  · exact ho

/-- The induction is on the list; the alternatives found so far are no unions. -/
theorem foldl_widen_joined (hgs : gs ≠ []) (hplain : ∀ g ∈ gs, g.isUnion = false)
    (hss : ∀ o ∈ ss, o.isUnion = false) :
    ss.foldl widen (joined gs) = joined (ss.foldl (fun gs o => addAlternative o gs) gs) := by
  induction ss generalizing gs with
  | nil => rfl
  | cons o rest ih =>
    have ho := hss o List.mem_cons_self
    rw [List.foldl_cons, List.foldl_cons, widen_joined hgs hplain ho]
    exact ih (addAlternative_ne_nil o gs) (isUnion_of_mem_addAlternative hplain ho)
      fun o ho => hss o (List.mem_cons_of_mem _ ho)

/-- The first schema is a list of one alternative. -/
theorem foldl_widen_eq_joined (h : ∀ t ∈ s :: ss, t.isUnion = false) :
    ss.foldl widen s = joined (distinctShapes (s :: ss)) := by
  have hplain : ∀ g ∈ [s], g.isUnion = false := by
    intro g hg
    rw [List.mem_singleton.1 hg]
    exact h s List.mem_cons_self
  show ss.foldl widen (joined [s]) = _
  rw [foldl_widen_joined (List.cons_ne_nil s []) hplain
    fun o ho => h o (List.mem_cons_of_mem _ ho), ← foldl_addAlternative_nil]
  rfl

/-- Widening makes a set: the distinct shapes in the order in which they occur first, and nothing is
added twice. -/
theorem widen_computes_distinctShapes (s : Schema) (rest : List Schema)
    (h : ∀ t ∈ s :: rest, t.isUnion = false) :
    rest.foldl widen s = joined (distinctShapes (s :: rest)) ∧
      ∀ a o : Schema, (a.widen o).widen o = a.widen o :=
  ⟨foldl_widen_eq_joined h, widen_widen⟩

/-- A cat with a name lends it to the cat that was first. -/
theorem widen_computes_distinctShapes_pets :
    let tom := { component "Cat" with sample := some (.string "Tom") }
    (∀ t ∈ [component "Cat", component "Dog", tom], t.isUnion = false) ∧
      [component "Dog", tom].foldl widen (component "Cat") = union [tom, component "Dog"] ∧
      (union [tom, component "Dog"]).widen (component "Dog") = union [tom, component "Dog"] := by
  intro tom
  have hplain : ∀ t ∈ [component "Cat", component "Dog", tom], t.isUnion = false := by decide
  have hwiden := widen_computes_distinctShapes (component "Cat") [component "Dog", tom] hplain
  refine ⟨hplain, hwiden.1.trans (by cbv), ?_⟩
  have htwice := hwiden.2 (union [tom]) (component "Dog")
  have honce : (union [tom]).widen (component "Dog") = union [tom, component "Dog"] := by
    have hother : tom.sameShape (component "Dog") = false := by decide +kernel
    have hunion : (union [tom]).sameShape (component "Dog") = false := by decide +kernel
    rw [widen_of_union hunion rfl rfl, addAlternative_cons_of_not_sameShape hother]
    rfl
  rwa [honce] at htwice

end EndpointDocs.Schema
