import EndpointDocs.Proofs.Registry.Component
import Mathlib.Data.Set.Finite.List
import Mathlib.Data.Set.Finite.Lattice

/-!
# The height of a type

A type is a tree. Its parts are the type itself and the parts of its arguments, and its height is
the number of arguments that stand inside each other. What stands in the place of the parameters
adds its height to that of a declared type, at most (`height_substitute_le`); only finitely many
types are made of given names up to a given height (`finite_height_le`).
-/

namespace EndpointDocs.TypeExpr

/-! ## Parts

Properties of a type are proved by induction on its tree. Since arguments are in a list, the
recursion needs a companion for lists each time; `induction_args` packs the two into one principle.
-/

mutual

/-- The type and all types inside it. -/
def parts : TypeExpr → List TypeExpr
  | ⟨name, args⟩ => ⟨name, args⟩ :: partsOfAll args

def partsOfAll : List TypeExpr → List TypeExpr
  | [] => []
  | t :: ts => parts t ++ partsOfAll ts

end

mutual

/-- How many arguments stand inside each other. -/
def height : TypeExpr → Nat
  | ⟨_, args⟩ => heightOfAll args

def heightOfAll : List TypeExpr → Nat
  | [] => 0
  | t :: ts => max (height t + 1) (heightOfAll ts)

end

mutual

/-- What holds of a type if it holds of its arguments holds of every type. -/
theorem induction_args {motive : TypeExpr → Prop}
    (h : ∀ t, (∀ a ∈ t.args, motive a) → motive t) : (t : TypeExpr) → motive t
  | ⟨_, args⟩ => h _ (induction_args_all h args)

theorem induction_args_all {motive : TypeExpr → Prop}
    (h : ∀ t, (∀ a ∈ t.args, motive a) → motive t) :
    (ts : List TypeExpr) → ∀ a ∈ ts, motive a
  | [] => fun _ ha => nomatch ha
  | t :: ts => List.forall_mem_cons.2 ⟨induction_args h t, induction_args_all h ts⟩

end

variable {t u w a : TypeExpr} {ts : List TypeExpr} {k : Nat}

/-- A part of one of the types. -/
theorem mem_partsOfAll : u ∈ partsOfAll ts ↔ ∃ t ∈ ts, u ∈ t.parts := by
  induction ts with
  | nil => simp [partsOfAll]
  | cons t ts ih => simp [partsOfAll, ih]

/-- The type itself, or a part of an argument. -/
theorem mem_parts : u ∈ t.parts ↔ u = t ∨ ∃ a ∈ t.args, u ∈ a.parts := by
  cases t
  rw [parts, List.mem_cons, mem_partsOfAll]

theorem self_mem_parts (t : TypeExpr) : t ∈ t.parts := mem_parts.2 (.inl rfl)

theorem mem_parts_of_mem_args (ha : a ∈ t.args) : a ∈ t.parts :=
  mem_parts.2 (.inr ⟨a, ha, self_mem_parts a⟩)

/-- A part of a part is a part. -/
theorem mem_parts_trans (h : u ∈ t.parts) (h' : w ∈ u.parts) : w ∈ t.parts := by
  induction t using induction_args with
  | _ t ih =>
    rcases mem_parts.1 h with rfl | ⟨a, ha, hu⟩
    · exact h'
    · exact mem_parts.2 (.inr ⟨a, ha, ih a ha hu⟩)

/-- The named type inside the wrappers is a part. -/
theorem mem_parts_of_peel (t : TypeExpr) :
    ∀ {ws : List Wrapper} {core : TypeExpr}, t.peel = (ws, .named core) → core ∈ t.parts := by
  have inside : ∀ {name inner args core}, inner ∈ args → core ∈ inner.parts →
      core ∈ (⟨name, args⟩ : TypeExpr).parts := fun hinner hcore =>
    mem_parts.2 (.inr ⟨_, hinner, hcore⟩)
  fun_induction peel t with
  | case1 => intro ws core h; cases h
  | case2 name => intro ws core h; cases h; exact self_mem_parts _
  | case3 name inner rest _ _ ih =>
    intro ws core h
    exact inside List.mem_cons_self (ih h)
  | case4 name inner rest _ _ _ ws' core' heq ih =>
    intro ws core h
    cases h
    exact inside List.mem_cons_self (ih heq)
  | case5 name inner _ _ _ _ value rest ws' core' heq ih =>
    intro ws core h
    cases h
    exact inside (List.mem_cons_of_mem _ List.mem_cons_self) (ih heq)
  | case6 => intro ws core h; cases h
  | case7 name inner rest => intro ws core h; cases h; exact self_mem_parts _

/-- The named type that a type is about is one of its parts. -/
theorem mem_parts_of_core? (h : t.core? = some u) : u ∈ t.parts := by
  cases hp : t.peel with
  | mk ws c =>
    cases c with
    | fixed s => rw [core?_of_peel_fixed hp] at h; cases h
    | named c =>
      rw [core?_of_peel_named hp] at h
      cases h
      exact mem_parts_of_peel t hp

/-! ## Heights

The measure that makes resolving end is a number of keys, hence of types. It is finite since the
types that are met have names of finitely many declarations, and their height is bounded. -/

/-- The height of a list bounds each of its types, and is reached by one. -/
theorem heightOfAll_le : heightOfAll ts ≤ k ↔ ∀ t ∈ ts, t.height + 1 ≤ k := by
  induction ts with
  | nil => simp [heightOfAll]
  | cons t ts ih => rw [heightOfAll, max_le_iff, ih, List.forall_mem_cons]

/-- Arguments are lower than the type. -/
theorem height_le : t.height ≤ k ↔ ∀ a ∈ t.args, a.height + 1 ≤ k := by
  cases t
  rw [height, heightOfAll_le]

theorem height_lt_of_mem_args (ha : a ∈ t.args) : a.height < t.height :=
  height_le.1 (le_refl _) a ha

/-- No part is higher than the whole. -/
theorem height_le_of_mem_parts (h : u ∈ t.parts) : u.height ≤ t.height := by
  induction t using induction_args with
  | _ t ih =>
    rcases mem_parts.1 h with rfl | ⟨a, ha, hu⟩
    · exact le_refl _
    · exact (ih a ha hu).trans (height_lt_of_mem_args ha).le

/-- The names in a type, each with the number of its arguments. -/
def heads (t : TypeExpr) : List (String × Nat) := t.parts.map fun u => (u.name, u.args.length)

/-- The names in a part are names in the whole. -/
theorem heads_subset (h : u ∈ t.parts) : u.heads ⊆ t.heads := by
  intro head hhead
  obtain ⟨w, hw, rfl⟩ := List.mem_map.1 hhead
  exact List.mem_map_of_mem (mem_parts_trans h hw)

/-- A type is a name and a list, and both are taken from finitely many. -/
theorem finite_args {names : Set (String × Nat)} (hnames : names.Finite) {args : Set TypeExpr}
    (hargs : args.Finite) :
    {t : TypeExpr | (t.name, t.args.length) ∈ names ∧ ∀ a ∈ t.args, a ∈ args}.Finite := by
  have : Finite args := hargs.to_subtype
  have hlists : ∀ n, {l : List TypeExpr | l.length = n ∧ ∀ a ∈ l, a ∈ args}.Finite := by
    intro n
    refine ((List.finite_length_eq args n).image (List.map Subtype.val)).subset ?_
    rintro l ⟨hlength, hl⟩
    lift l to List args using hl
    exact ⟨l, by simpa using hlength, rfl⟩
  refine (hnames.biUnion fun head _ => (hlists head.2).image (TypeExpr.mk head.1)).subset ?_
  rintro ⟨name, ts⟩ ⟨hhead, hts⟩
  exact Set.mem_biUnion hhead ⟨ts, ⟨rfl, hts⟩, rfl⟩

/-- There are finitely many types of given names up to a given height. The induction is on the
height. -/
theorem finite_height_le {names : Set (String × Nat)} (hnames : names.Finite) (k : Nat) :
    {t : TypeExpr | (∀ head ∈ t.heads, head ∈ names) ∧ t.height ≤ k}.Finite := by
  have hself : ∀ t : TypeExpr, (t.name, t.args.length) ∈ t.heads :=
    fun t => List.mem_map_of_mem (self_mem_parts t)
  induction k with
  | zero =>
    refine (finite_args hnames Set.finite_empty).subset ?_
    rintro t ⟨hheads, hheight⟩
    exact ⟨hheads _ (hself t),
      fun a ha => absurd (height_le.1 hheight a ha) (Nat.not_succ_le_zero _)⟩
  | succ k ih =>
    refine (finite_args hnames ih).subset ?_
    rintro t ⟨hheads, hheight⟩
    refine ⟨hheads _ (hself t), fun a ha => ⟨fun head hhead => hheads head ?_, ?_⟩⟩
    · exact heads_subset (mem_parts_of_mem_args ha) hhead
    · exact Nat.le_of_succ_le_succ (height_le.1 hheight a ha)

/-! ## Substitution

Substituting goes through the declared type and puts arguments at its leaves. Nothing else is made,
so each part of the result is known from an argument or from the declaration. -/

variable {params : List String} {args : List TypeExpr}

/-- By the place of the parameter; a missing argument may be anything. -/
theorem argumentFor_eq (name : String) (params : List String) (args : List TypeExpr) :
    argumentFor name params args =
      if name ∈ params then args.getD (params.idxOf name) anything else ⟨name, []⟩ := by
  induction params generalizing args with
  | nil => rfl
  | cons p ps ih =>
    rw [argumentFor]
    by_cases hp : p = name
    · subst hp
      cases args <;> simp
    · rw [if_neg hp, ih, List.idxOf_cons_ne _ hp]
      simp only [List.mem_cons, Ne.symm hp, false_or]
      cases args <;> simp

/-- The arguments one by one. -/
theorem substituteAll_eq_map (params : List String) (args ts : List TypeExpr) :
    substituteAll params args ts = ts.map (substitute params args) := by
  induction ts with
  | nil => rfl
  | cons t ts ih => rw [substituteAll, ih, List.map_cons]

/-- Only a name without arguments is replaced. -/
theorem substitute_eq (params : List String) (args : List TypeExpr) (t : TypeExpr) :
    t.substitute params args =
      if t.args = [] then argumentFor t.name params args
      else ⟨t.name, t.args.map (substitute params args)⟩ := by
  obtain ⟨name, _ | ⟨a, as⟩⟩ := t
  · rfl
  · rw [substitute, substituteAll_eq_map]
    rfl

/-- An item of the list, or what stands for a missing one. -/
theorem getD_mem_cons (args : List TypeExpr) (i : Nat) (t : TypeExpr) :
    args.getD i t ∈ t :: args := by
  rw [List.getD_eq_getElem?_getD]
  cases hi : args[i]? with
  | none => exact List.mem_cons_self
  | some a => exact List.mem_cons_of_mem _ (List.mem_of_getElem? hi)

/-- A part of what is substituted comes from an argument, or from a part of the declared type. -/
theorem mem_parts_substitute (h : u ∈ (t.substitute params args).parts) :
    (∃ a ∈ anything :: args, u ∈ a.parts) ∨
      ∃ e ∈ t.parts, u.name = e.name ∧ u.args = e.args.map (substitute params args) := by
  induction t using induction_args with
  | _ t ih =>
    rw [substitute_eq] at h
    -- a name without arguments may be a parameter, which stands for its argument
    by_cases hargs : t.args = []
    · rw [if_pos hargs, argumentFor_eq] at h
      by_cases hparam : t.name ∈ params
      · rw [if_pos hparam] at h
        exact .inl ⟨_, getD_mem_cons args _ anything, h⟩
      · rw [if_neg hparam] at h
        obtain rfl : u = ⟨t.name, []⟩ := by simpa [parts, partsOfAll] using h
        exact .inr ⟨t, self_mem_parts t, rfl, by rw [hargs, List.map_nil]⟩
    · rw [if_neg hargs] at h
      -- with arguments, the part is the type itself or comes from inside an argument
      rcases mem_parts.1 h with rfl | ⟨_, hmem, hu⟩
      · exact .inr ⟨t, self_mem_parts t, rfl, rfl⟩
      · obtain ⟨a, ha, rfl⟩ := List.mem_map.1 hmem
        rcases ih a ha hu with harg | ⟨e, he, hsame⟩
        · exact .inl harg
        · exact .inr ⟨e, mem_parts_trans (mem_parts_of_mem_args ha) he, hsame⟩

/-- Substitution adds no more height than the arguments have. -/
theorem height_substitute_le
    (h : ∀ name, ⟨name, []⟩ ∈ t.parts → (argumentFor name params args).height ≤ k) :
    (t.substitute params args).height ≤ t.height + k := by
  induction t using induction_args with
  | _ t ih =>
    rw [substitute_eq]
    by_cases hargs : t.args = []
    · rw [if_pos hargs]
      have hself : ⟨t.name, []⟩ ∈ t.parts := by
        cases t
        exact hargs ▸ self_mem_parts _
      exact (h t.name hself).trans (Nat.le_add_left _ _)
    · rw [if_neg hargs, height_le]
      -- the bound holds for the arguments, whose parts are parts of the type
      intro _ hmem
      obtain ⟨a, ha, rfl⟩ := List.mem_map.1 hmem
      have hinside := ih a ha fun name hname =>
        h name (mem_parts_trans (mem_parts_of_mem_args ha) hname)
      have hlt := height_lt_of_mem_args ha
      omega

end EndpointDocs.TypeExpr
