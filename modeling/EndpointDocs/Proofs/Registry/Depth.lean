import EndpointDocs.Proofs.Registry.Calls

/-!
# How deep types are followed

More depth changes nothing for a run that ends (`register_within`). A run ends if the depth reaches
the number of keys that may still have to be built: each call inside a component has one key less
ahead of it (`register_returns`). The predicate `ahead` holds of the types that a call may meet; the
types behind the memo may be others.
-/

namespace EndpointDocs.Registry

open Resolving

variable {resolver : Resolver} {p : TypeExpr → Prop} {r s q : Registry}

/-! ## More depth

`Within` says that the second computation has every answer of the first. It is kept by binding, so
it passes through the parts of a component as it stands; only `register` looks at the depth itself.
-/

section Within

variable {reg more : Register} (h : ∀ u, Within (reg u) (more u))

include h

/-- A schema of its own needs no depth. -/
theorem inlineSchema_within (t : TypeExpr) (dependencies : Keys) :
    Within (inlineSchema reg t dependencies) (inlineSchema more t dependencies) := by
  unfold inlineSchema
  rcases t.peel with ⟨ws, schema | core⟩
  · exact .refl _
  · exact .bind (h core) fun _ => .refl _

theorem nestedSchema_within (t : TypeExpr) (dependencies : Keys) :
    Within (nestedSchema reg t dependencies) (nestedSchema more t dependencies) :=
  .bind (inlineSchema_within h t dependencies) fun _ => .refl _

/-- The induction is on the fields. -/
theorem addFields_within (generics : List String) (args : List TypeExpr) (fields : List FieldShape)
    (c : Component) :
    Within (addFields reg generics args fields c) (addFields more generics args fields c) := by
  induction fields generalizing c with
  | nil => exact .refl _
  | cons f rest ih => exact .bind (nestedSchema_within h _ _) fun _ => ih _

theorem componentOf_within (t : TypeExpr) (shape : Shape) :
    Within (componentOf reg t shape) (componentOf more t shape) := by
  cases shape with
  | struct generics fields => exact addFields_within h generics t.args fields _
  | newtype inner => exact .bind (nestedSchema_within h inner ∅) fun _ => .refl _
  | enum names => exact .refl _

end Within

/-- The induction is on the smaller depth. -/
theorem register_within {d d' : Nat} (hd : d ≤ d') (t : TypeExpr) :
    Within (register resolver d t) (register resolver d' t) := by
  induction d generalizing d' t with
  | zero =>
    -- there is an answer only for a type that is in the memo or in progress
    unfold register
    refine .bind (.refl _) fun r => ?_
    rcases r.memo.get? t.refKey with - | (e | c)
    · refine .bind (.refl _) fun r => ?_
      by_cases hb : t.refKey ∈ r.inProgress
      · rw [if_pos hb, if_pos hb]
        exact .refl _
      · rw [if_neg hb, if_neg hb]
        intro _ _ hx
        cases hx
    · exact .refl _
    · exact .refl _
  | succ d ih =>
    obtain ⟨e, rfl⟩ := Nat.exists_eq_add_of_lt hd
    unfold register
    refine .bind (.refl _) fun r => ?_
    rcases r.memo.get? t.refKey with - | (e | c)
    · refine .bind (.refl _) fun r => ?_
      by_cases hb : t.refKey ∈ r.inProgress
      · rw [if_pos hb, if_pos hb]
        exact .refl _
      · rw [if_neg hb, if_neg hb]
        refine .bind (.refl _) fun _ => ?_
        cases resolver t.name with
        | none => exact .refl _
        | some shape =>
          refine .bind (componentOf_within (fun u => ih ?_ u) t shape) fun _ => .refl _
          -- the greater depth is one more as well, and what is left of it is no less
          exact Nat.le_add_right d _
    · exact .refl _
    · exact .refl _

theorem resolve_within {d d' : Nat} (hd : d ≤ d') (t : TypeExpr) (v : Variant) :
    Within (resolve resolver d t v) (resolve resolver d' t v) :=
  .bind (inlineSchema_within (register_within hd) t ∅) fun _ => .refl _

/-! ## Enough depth

The measure is a list of keys: those that are neither in the memo nor in progress, and might still
be asked for. Starting a key takes it off the list, and nothing that happens inside a component puts
one back, so the depth that is needed goes down by one. -/

variable {ahead : TypeExpr → Prop} {keys : List String}

/-- Every key of a type that lies ahead was met before or is among the given ones. -/
def Awaits (ahead : TypeExpr → Prop) (keys : List String) (r : Registry) : Prop :=
  ∀ t, ahead t → r.decided t.refKey ∨ t.refKey ∈ keys

/-- What was decided stays decided. -/
theorem Awaits.grow (h : Awaits ahead keys r) (hg : Grows r s) : Awaits ahead keys s :=
  fun t ht => (h t ht).imp_left hg.decided

/-- The key that is started is in progress, and awaited no more. -/
theorem Awaits.start (h : Awaits ahead keys r) {key name : String} :
    Awaits ahead (keys.erase key) (r.start key name) := by
  intro t ht
  by_cases hk : t.refKey = key
  · exact .inl (.inr (hk ▸ List.mem_cons_self))
  · rcases h t ht with (hm | hb) | hk'
    · exact .inl (.inl hm)
    · exact .inl (.inr (List.mem_cons_of_mem _ hb))
    · exact .inr ((List.mem_erase_of_ne hk).2 hk')

/-- Every call on a sound registry that awaits no other keys has an answer. -/
def Returns (resolver : Resolver) (p ahead : TypeExpr → Prop) (keys : List String)
    (reg : Register) : Prop :=
  ∀ t r, ahead t → Sound resolver p r → Awaits ahead keys r → ∃ x, (reg t).run r = some x

section Returns

variable {reg : Register} (hreg : Registers resolver p reg) (hsub : ∀ u, ahead u → p u)
variable (hreturns : Returns resolver p ahead keys reg)

include hreturns

/-- The named type in the middle is what is asked for. -/
theorem inlineSchema_returns {t : TypeExpr} (ht : ∀ u ∈ t.core?, ahead u) (dependencies : Keys)
    (hr : Sound resolver p r) (ha : Awaits ahead keys r) :
    ∃ x, (inlineSchema reg t dependencies).run r = some x := by
  unfold inlineSchema
  split
  · exact ⟨_, rfl⟩
  · next ws core hpeel =>
    obtain ⟨⟨result, q⟩, hrun⟩ :=
      hreturns core r (ht core (TypeExpr.core?_of_peel_named hpeel)) hr ha
    rw [run_bind_of_run hrun]
    cases result with
    | ok => exact ⟨_, rfl⟩
    | error e => exact ⟨_, rfl⟩

theorem nestedSchema_returns {t : TypeExpr} (ht : ∀ u ∈ t.core?, ahead u) (dependencies : Keys)
    (hr : Sound resolver p r) (ha : Awaits ahead keys r) :
    ∃ x, (nestedSchema reg t dependencies).run r = some x := by
  obtain ⟨⟨found, q⟩, hrun⟩ := inlineSchema_returns hreturns ht dependencies hr ha
  unfold nestedSchema
  rw [run_bind_of_run hrun]
  cases found with
  | ok x => exact ⟨_, rfl⟩
  | error e => exact ⟨_, rfl⟩

include hreg hsub

/-- Each field is met with a registry that has grown, which still awaits no other keys. -/
theorem addFields_returns {generics : List String} {args : List TypeExpr}
    {fields : List FieldShape}
    (ht : ∀ u ∈ (Shape.struct generics fields).mentioned args, ahead u) (hr : Sound resolver p r)
    (ha : Awaits ahead keys r) (c : Component) :
    ∃ x, (addFields reg generics args fields c).run r = some x := by
  induction fields generalizing r c with
  | nil => exact ⟨_, rfl⟩
  | cons f rest ih =>
    have hfirst : ∀ u ∈ (f.type.substitute generics args).core?, ahead u :=
      fun u hu => ht u (mem_mentioned_cons.2 (.inl hu))
    obtain ⟨⟨x, q⟩, hrun⟩ := nestedSchema_returns hreturns hfirst c.dependencies hr ha
    obtain ⟨hq, hg, -, -⟩ := nestedSchema_spec hreg (fun u hu => hsub u (hfirst u hu)) hr hrun
    unfold addFields
    rw [run_bind_of_run hrun]
    exact ih (fun u hu => ht u (mem_mentioned_cons.2 (.inr hu))) hq (ha.grow hg) _

theorem componentOf_returns {t : TypeExpr} {shape : Shape}
    (ht : ∀ u ∈ shape.mentioned t.args, ahead u) (hr : Sound resolver p r)
    (ha : Awaits ahead keys r) :
    ∃ x, (componentOf reg t shape).run r = some x := by
  cases shape with
  | struct generics fields => exact addFields_returns hreg hsub hreturns ht hr ha _
  | newtype inner =>
    simp only [mem_mentioned_newtype] at ht
    obtain ⟨⟨x, q⟩, hrun⟩ := nestedSchema_returns hreturns ht ∅ hr ha
    unfold componentOf
    rw [run_bind_of_run hrun]
    exact ⟨_, rfl⟩
  | enum names => exact ⟨_, rfl⟩

end Returns

variable {t : TypeExpr}

/-- Looking at the registry does not change it. -/
theorem run_get : (get : Resolving Registry).run r = some (r, r) := rfl

/-- A key that was met before is answered at any depth. -/
theorem register_of_decided {depth : Nat} (h : r.decided t.refKey) :
    ∃ x, (register resolver depth t).run r = some x := by
  unfold register
  rw [run_bind_of_run run_get]
  cases hm : r.memo.get? t.refKey with
  | some x =>
    cases x with
    | ok c => exact ⟨_, rfl⟩
    | error e => exact ⟨_, rfl⟩
  | none =>
    have hb := mem_inProgress_of_decided h hm
    dsimp only
    rw [run_bind_of_run run_get, if_pos hb]
    exact ⟨_, rfl⟩

/-- Without depth no new key is answered. -/
theorem run_register_zero (h : ¬ r.decided t.refKey) : (register resolver 0 t).run r = none := by
  have hb : t.refKey ∉ r.inProgress := fun hb => h (.inr hb)
  unfold register
  rw [run_bind_of_run run_get, get?_eq_none_of_not_decided h]
  dsimp only
  rw [run_bind_of_run run_get, if_neg hb]
  rfl

/-- A new key is answered by what the calls for its component leave. -/
theorem run_register_of_new {depth : Nat} (h : ¬ r.decided t.refKey) :
    (register resolver (depth + 1) t).run r =
      match resolver t.name with
      | none => some (.error ⟨t.refKey, .unknownType t⟩,
          (r.start t.refKey t.name).finish t.refKey (.error ⟨t.refKey, .unknownType t⟩))
      | some shape =>
        ((componentOf (register resolver depth) t shape).run (r.start t.refKey t.name)).map
          fun x => (.ok (), x.2.finish t.refKey (.ok x.1)) := by
  -- the type is neither known nor in progress, so both tests fail
  have hb : t.refKey ∉ r.inProgress := fun hb => h (.inr hb)
  have hstart : (modify (·.start t.refKey t.name) : Resolving Unit).run r =
      some ((), r.start t.refKey t.name) := rfl
  unfold register
  rw [run_bind_of_run run_get, get?_eq_none_of_not_decided h]
  dsimp only
  rw [run_bind_of_run run_get, if_neg hb, run_bind_of_run hstart]
  cases resolver t.name with
  | none => rfl
  | some shape =>
    dsimp only
    rw [StateT.run_bind]
    cases (componentOf (register resolver depth) t shape).run (r.start t.refKey t.name) with
    | none => rfl
    | some x => rfl

/-- A new key is answered if the calls for its component are. -/
theorem register_of_new {depth : Nat} (h : ¬ r.decided t.refKey)
    (hreturns : ∀ shape, resolver t.name = some shape →
      ∃ x, (componentOf (register resolver depth) t shape).run (r.start t.refKey t.name) = some x) :
    ∃ x, (register resolver (depth + 1) t).run r = some x := by
  rw [run_register_of_new h]
  cases hs : resolver t.name with
  | none => exact ⟨_, rfl⟩
  | some shape =>
    obtain ⟨x, hrun⟩ := hreturns shape hs
    dsimp only
    rw [hrun]
    exact ⟨_, rfl⟩

/-- Registering has an answer if the depth reaches the number of keys that it may meet. The
induction is on the depth: a key that is being built is awaited no more. -/
theorem register_returns (hp : Closed resolver p) (ha : Closed resolver ahead)
    (hsub : ∀ u, ahead u → p u) {depth : Nat} (hdepth : keys.length ≤ depth) :
    Returns resolver p ahead keys (register resolver depth) := by
  induction depth generalizing keys with
  | zero =>
    intro t r ht hr hawaits
    -- every key that may be met is decided
    have hnil : keys = [] := List.eq_nil_of_length_eq_zero (Nat.le_zero.1 hdepth)
    refine register_of_decided ((hawaits t ht).resolve_right ?_)
    rw [hnil]
    exact List.not_mem_nil
  | succ d ih =>
    intro t r ht hr hawaits
    rcases Classical.em (r.decided t.refKey) with hk | hnew
    · exact register_of_decided hk
    · refine register_of_new hnew fun shape hs => ?_
      have hkey : t.refKey ∈ keys := (hawaits t ht).resolve_left hnew
      have hlength : (keys.erase t.refKey).length ≤ d := by
        rw [List.length_erase_of_mem hkey]
        omega
      exact componentOf_returns (register_spec hp d) hsub (ih hlength)
        (fun u hu => ha t shape u ht hs hu)
        (hr.start (hsub t ht) hnew (Resolver.knows_of_eq_some hs)) hawaits.start

/-- As much depth as there are keys is enough for a call. -/
theorem resolve_returns (hp : Closed resolver p) (ha : Closed resolver ahead)
    (hsub : ∀ u, ahead u → p u) {t : TypeExpr} (ht : ∀ u ∈ t.core?, ahead u)
    (hr : Sound resolver p r) (hawaits : Awaits ahead keys r) (v : Variant) :
    ∃ x, (resolve resolver keys.length t v).run r = some x := by
  obtain ⟨⟨found, q⟩, hrun⟩ :=
    inlineSchema_returns (register_returns hp ha hsub (le_refl _)) ht ∅ hr hawaits
  unfold resolve
  rw [run_bind_of_run hrun]
  cases found with
  | ok x => exact ⟨_, rfl⟩
  | error e => exact ⟨_, rfl⟩

end EndpointDocs.Registry
