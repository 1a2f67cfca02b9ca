import EndpointDocs.Proofs.TypeHeight
import Mathlib.Data.Set.Card

/-!
# Types that grow

To resolve a type the types that it mentions are followed, with its arguments in the place of the
parameters, and those that they mention, again and again (`Resolver.followed`). A declaration may
pass a parameter on with something around it, and it may do so on a cycle: then there is always a
larger type to follow. If no parameter grows on a cycle, each argument has a limit to its height
that depends on its place only (`Resolver.Limits`), and finitely many types are followed
(`finite_followed`).
-/

namespace EndpointDocs

/-- The place of an argument: the name of a type and the index among its arguments. -/
structure ArgumentPlace where
  name : String
  index : Nat

namespace Resolver

variable (resolver : Resolver)

/-! ## Following types -/

/-- The type `t` has a shape, and its fields lead to `u`. -/
def Mentions (t u : TypeExpr) : Prop :=
  ∃ shape, resolver t.name = some shape ∧ u ∈ shape.mentioned t.args

/-- The named types that are met when a type is resolved. -/
def followed (t : TypeExpr) : Set TypeExpr :=
  {u | ∃ core ∈ t.core?, Relation.ReflTransGen resolver.Mentions core u}

/-- Only finitely many names have a shape. -/
def IsFinite : Prop := {name | (resolver name).isSome}.Finite

/-- The types that are written in declarations. -/
def declared : Set TypeExpr :=
  {t | ∃ name shape, resolver name = some shape ∧ t ∈ shape.declaredTypes}

/-! ## Passing parameters on -/

/-- In a field of the declaration at `p` there is a type with the argument `a` at the place `q`, and
the parameter of `p` stands in `a`. -/
def Passes (p q : ArgumentPlace) (a : TypeExpr) : Prop :=
  ∃ generics fields, resolver p.name = some (.struct generics fields) ∧
    ∃ f ∈ fields, ∃ e ∈ f.type.parts, e.name = q.name ∧ e.args[q.index]? = some a ∧
      ∃ param ∈ generics, generics.idxOf param = p.index ∧ ⟨param, []⟩ ∈ a.parts

def Flows (p q : ArgumentPlace) : Prop := ∃ a, resolver.Passes p q a

/-- The parameter is passed on with something around it. -/
def Grows (p q : ArgumentPlace) : Prop := ∃ a, resolver.Passes p q a ∧ a.args ≠ []

/-- No parameter that grows comes back to where it was. -/
def NoGrowingCycle : Prop :=
  ∀ p q, resolver.Grows p q → ¬ Relation.ReflTransGen resolver.Flows q p

variable {resolver} {p q : ArgumentPlace} {a t u : TypeExpr}

theorem Grows.flows (h : resolver.Grows p q) : resolver.Flows p q :=
  ⟨h.choose, h.choose_spec.1⟩

/-- Numbers that do not fall as parameters flow, and rise as they grow, tell that there is no
growing cycle. -/
theorem noGrowingCycle_of_rank (rank : ArgumentPlace → Nat)
    (hflows : ∀ p q, resolver.Flows p q → rank p ≤ rank q)
    (hgrows : ∀ p q, resolver.Grows p q → rank p < rank q) : resolver.NoGrowingCycle := by
  intro p q hgrow hback
  have hle : rank q ≤ rank p := by
    clear hgrow
    induction hback with
    | refl => exact le_refl _
    | tail _ hflow ih => exact ih.trans (hflows _ _ hflow)
  exact absurd (hgrows p q hgrow) (not_lt.2 hle)

/-! ### How often a parameter has grown -/

variable (resolver) in
/-- On a way from `p` to `q` the parameter grows. -/
def Before (p q : ArgumentPlace) : Prop :=
  ∃ o o', Relation.ReflTransGen resolver.Flows p o ∧ resolver.Grows o o' ∧
    Relation.ReflTransGen resolver.Flows o' q

variable (resolver) in
/-- The number of places from which a parameter has grown on its way. -/
noncomputable def rank (q : ArgumentPlace) : Nat := {p | resolver.Before p q}.ncard

variable (resolver) in
def arity (name : String) : Nat :=
  match resolver name with
  | some (.struct generics _) => generics.length
  | _ => 0

variable (hfinite : resolver.IsFinite)

include hfinite

theorem finite_sources : {p | ∃ q, resolver.Flows p q}.Finite := by
  refine (hfinite.biUnion fun name _ =>
    (Set.finite_lt_nat (resolver.arity name)).image (ArgumentPlace.mk name)).subset ?_
  rintro ⟨name, index⟩ ⟨q, a, generics, fields, hs, f, -, e, -, -, -, param, hparam, rfl, -⟩
  dsimp only at hs
  have hknown : name ∈ {name | (resolver name).isSome} := by
    rw [Set.mem_ofPred_eq, hs]
    rfl
  refine Set.mem_biUnion hknown ⟨_, ?_, rfl⟩
  rw [Set.mem_ofPred_eq, arity, hs]
  exact List.idxOf_lt_length_iff.2 hparam

omit hfinite in
theorem before_subset_sources (q : ArgumentPlace) :
    {p | resolver.Before p q} ⊆ {p | ∃ q, resolver.Flows p q} := by
  rintro p ⟨o, o', hto, hgrow, -⟩
  rcases Relation.ReflTransGen.cases_head hto with rfl | ⟨next, hnext, -⟩
  · exact ⟨o', hgrow.flows⟩
  · exact ⟨next, hnext⟩

theorem finite_before (q : ArgumentPlace) : {p | resolver.Before p q}.Finite :=
  (finite_sources hfinite).subset (before_subset_sources q)

theorem rank_le_of_flows (h : resolver.Flows p q) : resolver.rank p ≤ resolver.rank q := by
  refine Set.ncard_le_ncard ?_ (finite_before hfinite q)
  rintro _ ⟨o, o', hto, hgrow, hon⟩
  exact ⟨o, o', hto, hgrow, hon.tail h⟩

theorem rank_lt_of_grows (hcycle : resolver.NoGrowingCycle) (h : resolver.Grows p q) :
    resolver.rank p < resolver.rank q := by
  refine Set.ncard_lt_ncard ⟨?_, fun hsub => ?_⟩ (finite_before hfinite q)
  · rintro _ ⟨o, o', hto, hgrow, hon⟩
    exact ⟨o, o', hto, hgrow, hon.tail h.flows⟩
  · -- the place itself comes before `q`, but not before itself
    obtain ⟨o, o', hto, hgrow, hon⟩ := hsub ⟨p, q, .refl, h, .refl⟩
    exact hcycle o o' hgrow (hon.trans hto)

theorem rank_le_ncard (q : ArgumentPlace) :
    resolver.rank q ≤ {p | ∃ q, resolver.Flows p q}.ncard :=
  Set.ncard_le_ncard (before_subset_sources q) (finite_sources hfinite)

theorem finite_declared : resolver.declared.Finite := by
  refine (hfinite.biUnion fun name _ =>
    List.finite_toSet (((resolver name).map Shape.declaredTypes).getD [])).subset ?_
  rintro t ⟨name, shape, hs, ht⟩
  have hknown : name ∈ {name | (resolver name).isSome} := by
    rw [Set.mem_ofPred_eq, hs]
    rfl
  refine Set.mem_biUnion hknown ?_
  rw [Set.mem_ofPred_eq, hs]
  exact ht

/-- The height of a declared type is bounded. -/
theorem exists_height_le : ∃ h, ∀ t ∈ resolver.declared, t.height ≤ h := by
  obtain ⟨h, hbound⟩ := ((finite_declared hfinite).image TypeExpr.height).bddAbove
  exact ⟨h, fun t ht => hbound (Set.mem_image_of_mem _ ht)⟩

omit hfinite

/-! ## Limits -/

variable (resolver) in
/-- A limit for the height of the arguments at each place. What stands around a parameter fits in
where it is passed on. -/
structure Limits (limit : ArgumentPlace → Nat) : Prop where
  declared : ∀ t ∈ resolver.declared, ∀ q, t.height ≤ limit q
  passes : ∀ p q a, resolver.Passes p q a → limit p + a.height ≤ limit q

theorem Passes.height_le {h : Nat} (hdeclared : ∀ t ∈ resolver.declared, t.height ≤ h)
    (hp : resolver.Passes p q a) : a.height ≤ h := by
  obtain ⟨generics, fields, hs, f, hf, e, he, -, ha, -⟩ := hp
  have hfield : f.type ∈ resolver.declared := ⟨p.name, _, hs, List.mem_map_of_mem hf⟩
  have hpart : a ∈ f.type.parts :=
    TypeExpr.mem_parts_trans he (TypeExpr.mem_parts_of_mem_args (List.mem_of_getElem? ha))
  exact (TypeExpr.height_le_of_mem_parts hpart).trans (hdeclared _ hfield)

/-- Without a growing cycle there are bounded limits, as far up as one likes. -/
theorem exists_limits (hfinite : resolver.IsFinite) (hcycle : resolver.NoGrowingCycle)
    (least : Nat) :
    ∃ limit bound, resolver.Limits limit ∧ (∀ q, least ≤ limit q) ∧ ∀ q, limit q ≤ bound := by
  obtain ⟨h, hdeclared⟩ := exists_height_le hfinite
  have hbase : ∀ q, least + h ≤ least + h + h * resolver.rank q := fun q => Nat.le_add_right _ _
  refine ⟨fun q => least + h + h * resolver.rank q,
    least + h + h * {p | ∃ q, resolver.Flows p q}.ncard, ⟨fun t ht q => ?_, fun p q a hp => ?_⟩,
    fun q => (Nat.le_add_right _ _).trans (hbase q), fun q => ?_⟩
  · exact (hdeclared t ht).trans ((Nat.le_add_left _ _).trans (hbase q))
  · by_cases ha : a.args = []
    · -- the bare parameter
      have hzero : a.height = 0 := Nat.le_zero.1 (TypeExpr.height_le.2 (by simp [ha]))
      have hle := Nat.mul_le_mul_left h (rank_le_of_flows hfinite ⟨a, hp⟩)
      omega
    · have hlt := rank_lt_of_grows hfinite hcycle ⟨a, hp, ha⟩
      have hmul : h * (resolver.rank p + 1) ≤ h * resolver.rank q := Nat.mul_le_mul_left h hlt
      have hheight := hp.height_le hdeclared
      rw [Nat.mul_succ] at hmul
      omega
  · exact Nat.add_le_add_left (Nat.mul_le_mul_left h (rank_le_ncard hfinite q)) _

end Resolver

/-- A type of the given names whose arguments keep the limits. -/
structure TypeExpr.Fits (names : Set (String × Nat)) (limit : ArgumentPlace → Nat) (t : TypeExpr) :
    Prop where
  heads : ∀ head ∈ t.heads, head ∈ names
  heights : ∀ u ∈ t.parts, ∀ (i : Nat) a, u.args[i]? = some a → a.height ≤ limit ⟨u.name, i⟩

namespace TypeExpr

variable {names : Set (String × Nat)} {limit : ArgumentPlace → Nat} {t u : TypeExpr}

theorem Fits.part (h : t.Fits names limit) (hu : u ∈ t.parts) : u.Fits names limit where
  heads head hhead := h.heads head (heads_subset hu hhead)
  heights w hw := h.heights w (mem_parts_trans hu hw)

theorem Fits.of_height_le (hheads : ∀ head ∈ t.heads, head ∈ names)
    (h : ∀ q, t.height ≤ limit q) : t.Fits names limit where
  heads := hheads
  heights u hu i a ha := by
    have hpart := mem_parts_trans hu (mem_parts_of_mem_args (List.mem_of_getElem? ha))
    exact (height_le_of_mem_parts hpart).trans (h _)

theorem finite_fits (hnames : names.Finite) {bound : Nat} (hbound : ∀ q, limit q ≤ bound) :
    {t : TypeExpr | t.Fits names limit}.Finite := by
  refine (finite_height_le hnames (bound + 1)).subset fun t ht => ⟨ht.heads, ?_⟩
  rw [height_le]
  intro a ha
  obtain ⟨i, hi⟩ := List.mem_iff_getElem?.1 ha
  exact Nat.succ_le_succ ((ht.heights t (self_mem_parts t) i a hi).trans (hbound _))

end TypeExpr

namespace Resolver

variable {resolver : Resolver} {t u : TypeExpr}
variable {names : Set (String × Nat)} {limit : ArgumentPlace → Nat}

/-- Arguments that keep the limits of their places do so inside the types of a field. -/
theorem fits_substitute {name : String} {generics : List String} {fields : List FieldShape}
    {f : FieldShape} {args : List TypeExpr} (hlimit : resolver.Limits limit)
    (hs : resolver name = some (.struct generics fields)) (hf : f ∈ fields)
    (hfield : f.type.Fits names limit) (hanything : TypeExpr.anything.Fits names limit)
    (hargs : ∀ a ∈ args, a.Fits names limit)
    (hheights : ∀ (i : Nat) a, args[i]? = some a → a.height ≤ limit ⟨name, i⟩) :
    (f.type.substitute generics args).Fits names limit := by
  have harguments : ∀ a ∈ TypeExpr.anything :: args, a.Fits names limit :=
    List.forall_mem_cons.2 ⟨hanything, hargs⟩
  refine ⟨fun head hhead => ?_, fun u hu i a ha => ?_⟩
  · obtain ⟨u, hu, rfl⟩ := List.mem_map.1 hhead
    rcases TypeExpr.mem_parts_substitute hu with ⟨a, ha, hua⟩ | ⟨e, he, hname, hsame⟩
    · exact (harguments a ha).heads _ (List.mem_map_of_mem hua)
    · rw [hname, hsame, List.length_map]
      exact hfield.heads _ (List.mem_map_of_mem he)
  · rcases TypeExpr.mem_parts_substitute hu with ⟨a', ha', hua⟩ | ⟨e, he, hname, hsame⟩
    · exact (harguments a' ha').heights u hua i a ha
    · rw [hsame, List.getElem?_map] at ha
      obtain ⟨b, hb, rfl⟩ := Option.map_eq_some_iff.1 ha
      rw [hname]
      -- room for what stands around the parameters in `b`
      have hroom : b.height ≤ limit ⟨e.name, i⟩ := hfield.heights e he i b hb
      have hinside : ∀ param, ⟨param, []⟩ ∈ b.parts →
          (TypeExpr.argumentFor param generics args).height ≤
            limit ⟨e.name, i⟩ - b.height := by
        intro param hparam
        rw [TypeExpr.argumentFor_eq]
        by_cases hgeneric : param ∈ generics
        · rw [if_pos hgeneric, List.getD_eq_getElem?_getD]
          cases harg : args[generics.idxOf param]? with
          | none => exact Nat.zero_le _
          | some c =>
            have hpass : resolver.Passes ⟨name, generics.idxOf param⟩ ⟨e.name, i⟩ b :=
              ⟨generics, fields, hs, f, hf, e, he, rfl, hb, param, hgeneric, rfl, hparam⟩
            have hle := hlimit.passes _ _ _ hpass
            have hc := hheights _ c harg
            exact Nat.le_sub_of_add_le ((Nat.add_le_add_right hc _).trans hle)
        · rw [if_neg hgeneric]
          exact Nat.zero_le _
      have hsum := TypeExpr.height_substitute_le hinside
      omega

/-- What is mentioned by a type that keeps the limits keeps them as well. -/
theorem fits_of_mentions (hlimit : resolver.Limits limit)
    (hanything : TypeExpr.anything.Fits names limit)
    (hdeclared : ∀ d ∈ resolver.declared, d.Fits names limit) (ht : t.Fits names limit)
    (h : resolver.Mentions t u) : u.Fits names limit := by
  obtain ⟨shape, hs, hu⟩ := h
  obtain ⟨d, hd, hcore⟩ := List.mem_filterMap.1 hu
  refine TypeExpr.Fits.part ?_ (TypeExpr.mem_parts_of_core? hcore)
  cases shape with
  | struct generics fields =>
    obtain ⟨f, hf, rfl⟩ := List.mem_map.1 hd
    -- a field is declared, and its parameters stand for parts of the type that mentions it
    have hfield : f.type ∈ resolver.declared := ⟨t.name, _, hs, List.mem_map_of_mem hf⟩
    refine fits_substitute hlimit hs hf (hdeclared _ hfield) hanything (fun a ha => ?_) ?_
    · exact ht.part (TypeExpr.mem_parts_of_mem_args ha)
    · exact ht.heights t (TypeExpr.self_mem_parts t)
  | newtype inner => exact hdeclared d ⟨t.name, _, hs, hd⟩
  | enum names => cases hd

/-- Without a growing cycle finitely many types are followed, whatever the arguments are. -/
theorem finite_followed (hfinite : resolver.IsFinite) (hcycle : resolver.NoGrowingCycle)
    (t : TypeExpr) : (resolver.followed t).Finite := by
  -- the types that are followed fit between finitely many names and a bound on their heights
  let start : Set TypeExpr := {t, .anything} ∪ resolver.declared
  let names : Set (String × Nat) := {head | ∃ d ∈ start, head ∈ d.heads}
  have hnames : names.Finite := by
    refine (((Set.toFinite {t, TypeExpr.anything}).union (finite_declared hfinite)).biUnion
      fun d _ => List.finite_toSet d.heads).subset ?_
    rintro head ⟨d, hd, hhead⟩
    exact Set.mem_biUnion hd hhead
  obtain ⟨limit, bound, hlimit, hleast, hbound⟩ := exists_limits hfinite hcycle t.height
  have hstart : ∀ d ∈ start, (∀ q, d.height ≤ limit q) → d.Fits names limit :=
    fun d hd hheight => .of_height_le (fun head hhead => ⟨d, hd, hhead⟩) hheight
  have ht : t.Fits names limit := hstart t (.inl (.inl rfl)) hleast
  have hanything : TypeExpr.anything.Fits names limit :=
    hstart _ (.inl (.inr rfl)) fun q => Nat.zero_le _
  have hdeclared : ∀ d ∈ resolver.declared, d.Fits names limit :=
    fun d hd => hstart d (.inr hd) (hlimit.declared d hd)
  refine (TypeExpr.finite_fits hnames hbound).subset ?_
  rintro u ⟨core, hcore, hreach⟩
  induction hreach with
  | refl => exact ht.part (TypeExpr.mem_parts_of_core? hcore)
  | tail _ hmention ih => exact fits_of_mentions hlimit hanything hdeclared ih hmention

end Resolver

end EndpointDocs
