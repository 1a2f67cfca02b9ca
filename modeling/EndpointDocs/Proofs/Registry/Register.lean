import EndpointDocs.Proofs.Registry.Component
import EndpointDocs.Proofs.Resolving

/-!
# Registering components

`register` is recursive through the fields of a type and asks the memo and the set of keys in
progress on its way. What one call does is said once (`Registered`). From it follows by induction on
the depth that the memo only grows (`Grows`) and that each component in it is the one that its type,
its shape and the knowledge of the registry give (`Sound`). A key in progress belongs to a type with
a shape, so it ends up with a component: answering it before it is finished is no mistake.

The predicate `p` bounds the types that are met. It is closed under mentioning, and what is proved
of it holds of every type whose component is in the memo.
-/

namespace EndpointDocs.Registry

open Resolving

/-! ## What a registry knows

Two things are asked of the registry when a schema is built: whether the key of a type was met
before (`decided`), and whether it leads to a component (`hasComponent`). A key in progress counts
as one with a component; that this is right in the end is part of what is proved. -/

/-- The key was met before. -/
def decided (r : Registry) (key : String) : Prop :=
  (∃ x, r.memo.get? key = some x) ∨ key ∈ r.inProgress

/-- There is a component of the key, or it is being built. -/
def hasComponent (r : Registry) (key : String) : Bool :=
  match r.memo.get? key with
  | some (.ok _) => true
  | some (.error _) => false
  | none => key ∈ r.inProgress

/-- What `s` knows more than `r` are further entries of the memo. -/
structure Grows (r s : Registry) : Prop where
  memo : ∀ {key x}, r.memo.get? key = some x → s.memo.get? key = some x
  inProgress : s.inProgress = r.inProgress
  variants : s.variants = r.variants

theorem Grows.refl (r : Registry) : Grows r r := ⟨id, rfl, rfl⟩

theorem Grows.trans {r s q : Registry} (h : Grows r s) (h' : Grows s q) : Grows r q :=
  ⟨fun hx => h'.memo (h.memo hx), h'.inProgress.trans h.inProgress,
    h'.variants.trans h.variants⟩

theorem Grows.decided {r s : Registry} (h : Grows r s) {key : String} (hk : r.decided key) :
    s.decided key := by
  rcases hk with ⟨x, hx⟩ | hk
  · exact .inl ⟨x, h.memo hx⟩
  · exact .inr (h.inProgress ▸ hk)

/-! ## One call

The five ways in which a call can go. This is the only place where `register` is unfolded; every
later lemma about it goes through `registered_of_run`. -/

/-- What a call of `register` for `t` on `r` may do. -/
inductive Registered (resolver : Resolver) (depth : Nat) (t : TypeExpr) (r : Registry) :
    Except ResolutionError Unit → Registry → Prop where
  /-- The component is there. -/
  | known (c : Component) (h : r.memo.get? t.refKey = some (.ok c)) :
      Registered resolver depth t r (.ok ()) r
  /-- The type could not be resolved before. -/
  | failed (e : ResolutionError) (h : r.memo.get? t.refKey = some (.error e)) :
      Registered resolver depth t r (.error e) r
  | building (h : r.memo.get? t.refKey = none) (hb : t.refKey ∈ r.inProgress) :
      Registered resolver depth t r (.ok ()) r
  /-- The resolver has no shape. -/
  | unknown (h : ¬ r.decided t.refKey) (hs : resolver t.name = none) :
      Registered resolver depth t r (.error ⟨t.refKey, .unknownType t⟩)
        ((r.start t.refKey t.name).finish t.refKey (.error ⟨t.refKey, .unknownType t⟩))
  | built (d : Nat) (shape : Shape) (c : Component) (q : Registry) (hd : depth = d + 1)
      (h : ¬ r.decided t.refKey) (hs : resolver t.name = some shape)
      (hc : (componentOf (register resolver d) t shape).run (r.start t.refKey t.name) =
        some (c, q)) :
      Registered resolver depth t r (.ok ()) (q.finish t.refKey (.ok c))

theorem registered_of_run {resolver : Resolver} {depth : Nat} {t : TypeExpr} {r s : Registry}
    {result : Except ResolutionError Unit}
    (h : (register resolver depth t).run r = some (result, s)) :
    Registered resolver depth t r result s := by
  unfold register at h
  obtain ⟨_, _, hget, h⟩ := run_bind_eq_some.1 h
  cases hget
  split at h
  · next c hc =>
    cases h
    exact .known c hc
  · next e he =>
    cases h
    exact .failed e he
  · next hnone =>
    obtain ⟨_, _, hget, h⟩ := run_bind_eq_some.1 h
    cases hget
    split at h
    · next hb =>
      cases h
      exact .building hnone hb
    · next hb =>
      -- neither in the memo nor in progress
      have hnew : ¬ r.decided t.refKey := by
        rintro (⟨x, hx⟩ | hk)
        · rw [hnone] at hx
          cases hx
        · exact hb hk
      cases depth with
      | zero => cases h
      | succ d =>
        obtain ⟨_, _, hstart, h⟩ := run_bind_eq_some.1 h
        cases hstart
        split at h
        · next hs =>
          cases h
          exact .unknown hnew hs
        · next shape hs =>
          obtain ⟨c, q, hc, h⟩ := run_bind_eq_some.1 h
          cases h
          exact .built d shape c q rfl hnew hs hc

/-! ## What the memo holds

`Sound` is the invariant of the memo: a stored component is the one that `Component.of` makes of the
shape of its type, given what the registry says of the types that are mentioned. Since this is said
in the present tense, all that has to be shown of a change to the registry is that it keeps what was
said of the decided keys (`Keeps`). The lemmas go from small changes to large ones: a key that is
started, one that fails, one that is finished. -/

/-- Every key that `r` decides is decided in the same way by `s`. -/
def Keeps (r s : Registry) : Prop :=
  ∀ key, r.decided key → s.decided key ∧ s.hasComponent key = r.hasComponent key

/-- `c` is the component of a type with the key `key`, and all types it mentions are decided. -/
def StoredAs (resolver : Resolver) (p : TypeExpr → Prop) (r : Registry) (key : String)
    (c : Component) : Prop :=
  ∃ t shape, p t ∧ t.refKey = key ∧ resolver t.name = some shape ∧
    c = Component.of (fun u => r.hasComponent u.refKey) t shape ∧
    ∀ u ∈ shape.mentioned t.args, r.decided u.refKey

/-- The memo holds what the types of its keys give. -/
structure Sound (resolver : Resolver) (p : TypeExpr → Prop) (r : Registry) : Prop where
  building : ∀ {key}, key ∈ r.inProgress →
    r.memo.get? key = none ∧ ∃ t, p t ∧ t.refKey = key ∧ resolver.knows t = true
  failed : ∀ {key e}, r.memo.get? key = some (.error e) →
    ∃ t, p t ∧ t.refKey = key ∧ resolver t.name = none ∧ e = ⟨key, .unknownType t⟩
  stored : ∀ {key c}, r.memo.get? key = some (.ok c) → StoredAs resolver p r key c

/-- A predicate on types that holds of what they mention as well. -/
def Closed (resolver : Resolver) (p : TypeExpr → Prop) : Prop :=
  ∀ t shape u, p t → resolver t.name = some shape → u ∈ shape.mentioned t.args → p u

variable {resolver : Resolver} {p : TypeExpr → Prop} {r s q : Registry} {key : String}

theorem get?_eq_none_of_not_decided (h : ¬ r.decided key) : r.memo.get? key = none := by
  cases hx : r.memo.get? key with
  | none => rfl
  | some x => exact absurd (.inl ⟨x, hx⟩) h

theorem mem_inProgress_of_decided (h : r.decided key) (hnone : r.memo.get? key = none) :
    key ∈ r.inProgress := by
  rcases h with ⟨x, hx⟩ | hb
  · rw [hnone] at hx
    cases hx
  · exact hb

theorem hasComponent_of_ok {c : Component} (h : r.memo.get? key = some (.ok c)) :
    r.hasComponent key = true := by
  rw [hasComponent, h]

theorem hasComponent_of_error {e : ResolutionError} (h : r.memo.get? key = some (.error e)) :
    r.hasComponent key = false := by
  rw [hasComponent, h]

theorem hasComponent_of_none (h : r.memo.get? key = none) :
    r.hasComponent key = decide (key ∈ r.inProgress) := by
  rw [hasComponent, h]

/-- What a registry says of a key depends on its memo and its keys in progress at that key. -/
theorem keeps_key (hm : s.memo.get? key = r.memo.get? key)
    (hb : key ∈ s.inProgress ↔ key ∈ r.inProgress) (hk : r.decided key) :
    s.decided key ∧ s.hasComponent key = r.hasComponent key := by
  refine ⟨hk.imp (fun hx => by rwa [hm]) hb.2, ?_⟩
  simp only [hasComponent, hm, hb]

/-- The memo of `s` has grown from that of `r`, and what is in progress is in neither. -/
theorem Grows.keeps (hg : Grows r s) (hs : Sound resolver p s) : Keeps r s := by
  intro key hk
  refine ⟨hg.decided hk, ?_⟩
  rcases hk with ⟨x, hx⟩ | hb
  · simp only [hasComponent, hx, hg.memo hx]
    cases x <;> rfl
  · -- neither memo has an entry for a key in progress
    have hnone := (hs.building (hg.inProgress ▸ hb)).1
    have hnone' : r.memo.get? key = none := by
      cases hx : r.memo.get? key with
      | none => rfl
      | some x =>
        rw [hg.memo hx] at hnone
        cases hnone
    rw [hasComponent_of_none hnone, hasComponent_of_none hnone', hg.inProgress]

/-- A component mentions decided keys only, so it stays the right one. -/
theorem StoredAs.keeps {c : Component} (h : StoredAs resolver p r key c) (hk : Keeps r s) :
    StoredAs resolver p s key c := by
  obtain ⟨t, shape, hp, hkey, hs, rfl, hd⟩ := h
  refine ⟨t, shape, hp, hkey, hs, ?_, fun u hu => (hk _ (hd u hu)).1⟩
  exact Component.of_congr fun u hu => (hk _ (hd u hu)).2.symm

theorem decided_start {other name : String} :
    (r.start key name).decided other ↔ other = key ∨ r.decided other := by
  unfold decided
  rw [or_left_comm]
  exact or_congr_right List.mem_cons

/-- Starting a key changes nothing for the keys that were met before. -/
theorem keeps_start {name : String} (hnew : ¬ r.decided key) : Keeps r (r.start key name) := by
  intro k hk
  -- the key itself was not met before, so it is none of those whose answers must stay
  have hne : k ≠ key := fun he => hnew (he ▸ hk)
  refine keeps_key rfl ?_ hk
  simp only [start, List.mem_cons, hne, false_or]

theorem Sound.start {t : TypeExpr} (hr : Sound resolver p r) (hp : p t)
    (hnew : ¬ r.decided t.refKey) (hk : resolver.knows t = true) :
    Sound resolver p (r.start t.refKey t.name) where
  building {key} hb := by
    rcases List.mem_cons.1 hb with rfl | hb
    · have hnone := get?_eq_none_of_not_decided hnew
      exact ⟨hnone, t, hp, rfl, hk⟩
    · exact hr.building hb
  failed := hr.failed
  stored h := (hr.stored h).keeps (keeps_start hnew)

/-! ### The end of a call

A call ends by moving the key from the ones in progress to the memo. Its answer was that of a
component while it was in progress, so finishing it with a component changes no answer. A type
without a shape is different: it fails at once, before any other call could have asked for it. -/

theorem get?_finish {key other : String} {result : Except ResolutionError Component} :
    (q.finish key result).memo.get? other =
      if other = key then some result else q.memo.get? other :=
  KeyMap.get?_insert _ _ _ _

theorem get?_finish_self {result : Except ResolutionError Component} :
    (q.finish key result).memo.get? key = some result := by
  rw [get?_finish, if_pos rfl]

theorem get?_finish_of_ne {other : String} {result : Except ResolutionError Component}
    (h : other ≠ key) : (q.finish key result).memo.get? other = q.memo.get? other := by
  rw [get?_finish, if_neg h]

/-- A key that is finished is in the memo, and the others are where they were. -/
theorem decided_finish {other : String} {result : Except ResolutionError Component} :
    (q.finish key result).decided other ↔ other = key ∨ q.decided other := by
  rw [decided, decided, get?_finish]
  by_cases hk : other = key
  · simp [hk]
  · simp [hk, finish, List.mem_erase_of_ne hk]

theorem decided_fail {other name : String} {result : Except ResolutionError Component} :
    ((r.start key name).finish key result).decided other ↔ other = key ∨ r.decided other := by
  rw [decided_finish, decided_start, or_self_left]

/-- The key was put in front, and is taken away again. -/
theorem inProgress_fail {name : String} {result : Except ResolutionError Component} :
    ((r.start key name).finish key result).inProgress = r.inProgress :=
  List.erase_cons_head key r.inProgress

/-- A type without a shape is noted as failed. -/
theorem keeps_fail {name : String} {e : ResolutionError} (hnew : ¬ r.decided key) :
    Keeps r ((r.start key name).finish key (.error e)) := by
  intro k hk
  have hne : k ≠ key := fun he => hnew (he ▸ hk)
  exact keeps_key (get?_finish_of_ne hne) (by rw [inProgress_fail]) hk

theorem grows_fail {name : String} {e : ResolutionError} (hnew : ¬ r.decided key) :
    Grows r ((r.start key name).finish key (.error e)) where
  memo {k x} hx := by
    have hne : k ≠ key := fun he => hnew (he ▸ .inl ⟨x, hx⟩)
    rw [get?_finish_of_ne hne]
    exact hx
  inProgress := inProgress_fail
  variants := rfl

theorem Sound.fail {t : TypeExpr} (hr : Sound resolver p r) (hp : p t)
    (hnew : ¬ r.decided t.refKey) (hs : resolver t.name = none) :
    Sound resolver p ((r.start t.refKey t.name).finish t.refKey
      (.error ⟨t.refKey, .unknownType t⟩)) where
  building {key} hb := by
    have hb' : key ∈ r.inProgress := inProgress_fail ▸ hb
    -- the key that is done now was not in progress before
    have hne : key ≠ t.refKey := fun he => hnew (.inr (he ▸ hb'))
    rw [get?_finish_of_ne hne]
    exact hr.building hb'
  failed {key e} he := by
    rw [get?_finish] at he
    split at he
    · next hkey =>
      cases he
      exact ⟨t, hp, hkey.symm, hs, by rw [hkey]⟩
    · exact hr.failed he
  stored {key c} hc := by
    rw [get?_finish] at hc
    split at hc
    · cases hc
    · exact (hr.stored hc).keeps (keeps_fail hnew)

/-- What was known before a key was started is known when it is finished. -/
theorem Grows.finish {name : String} {result : Except ResolutionError Component}
    (h : Grows (r.start key name) q) (hnew : ¬ r.decided key) :
    Grows r (q.finish key result) where
  memo {k x} hx := by
    have hne : k ≠ key := fun he => hnew (he ▸ .inl ⟨x, hx⟩)
    rw [get?_finish_of_ne hne]
    exact h.memo hx
  inProgress := by
    show q.inProgress.erase key = r.inProgress
    rw [h.inProgress]
    exact List.erase_cons_head key r.inProgress
  variants := h.variants

/-- Behind a component that was built: the key was in progress and is in the memo now. -/
theorem keeps_finish {c : Component} (hb : key ∈ q.inProgress) (hnone : q.memo.get? key = none) :
    Keeps q (q.finish key (.ok c)) := by
  intro k hk
  by_cases he : k = key
  · subst he
    refine ⟨.inl ⟨_, get?_finish_self⟩, ?_⟩
    rw [hasComponent_of_ok get?_finish_self, hasComponent_of_none hnone, decide_eq_true hb]
  · exact keeps_key (get?_finish_of_ne he) (List.mem_erase_of_ne he) hk

/-- The key stood in front of the others in progress, once, so these stay in progress. What it is
finished with is the component of its type by what the registry says at this moment. -/
theorem Sound.finish {c : Component} {rest : List String} (hq : Sound resolver p q)
    (hb : q.inProgress = key :: rest) (hrest : key ∉ rest) (hc : StoredAs resolver p q key c) :
    Sound resolver p (q.finish key (.ok c)) := by
  have hmem : key ∈ q.inProgress := hb ▸ List.mem_cons_self
  have hkeeps := keeps_finish (c := c) hmem (hq.building hmem).1
  have hprogress : (q.finish key (.ok c)).inProgress = rest := by
    show q.inProgress.erase key = rest
    rw [hb, List.erase_cons_head]
  refine ⟨fun {k} hk => ?_, fun {k e} he => ?_, fun {k c'} hc' => ?_⟩
  · rw [hprogress] at hk
    have hne : k ≠ key := fun he => hrest (he ▸ hk)
    rw [get?_finish_of_ne hne]
    exact hq.building (hb ▸ List.mem_cons_of_mem _ hk)
  · rw [get?_finish] at he
    split at he
    · cases he
    · exact hq.failed he
  · rw [get?_finish] at hc'
    split at hc'
    · next he =>
      cases hc'
      exact (he ▸ hc).keeps hkeeps
    · -- an older component may mention the key: that it has a component is still true
      exact (hq.stored hc').keeps hkeeps

/-! ## Every call

The proof follows the calls inside a call: a schema calls for at most one type, a component for
those of its fields one after another. In each of these lemmas `reg` is what the calls inside do, of
which only `Registers` is used. -/

/-- What a call for `t` on `r` ends with. -/
structure Registration (resolver : Resolver) (p : TypeExpr → Prop) (t : TypeExpr) (r : Registry)
    (result : Except ResolutionError Unit) (s : Registry) : Prop where
  sound : Sound resolver p s
  grows : Grows r s
  decided : s.decided t.refKey
  ok : result = .ok () → s.hasComponent t.refKey = true
  error : ∀ e, result = .error e → s.memo.get? t.refKey = some (.error e)

/-- Every run of `reg` on a sound registry is a registration. -/
def Registers (resolver : Resolver) (p : TypeExpr → Prop) (reg : Register) : Prop :=
  ∀ t r result s, p t → Sound resolver p r → (reg t).run r = some (result, s) →
    Registration resolver p t r result s

section Register

variable {reg : Register}

/-- What the schema of a type is made of besides the registry. -/
theorem inlineSchema_spec (hreg : Registers resolver p reg) {t : TypeExpr}
    (hp : ∀ u ∈ t.core?, p u) {dependencies : Keys} (hr : Sound resolver p r)
    {found : Except ResolutionError (Schema × Keys)}
    (h : (inlineSchema reg t dependencies).run r = some (found, s)) :
    Sound resolver p s ∧ Grows r s ∧ (∀ u ∈ t.core?, s.decided u.refKey) ∧
      match found with
      | .ok x => x = nestedSchemaOf (fun u => s.hasComponent u.refKey) t dependencies ∧
          ∀ u ∈ t.core?, s.hasComponent u.refKey = true
      | .error e => ∃ u ∈ t.core?, s.memo.get? u.refKey = some (.error e) := by
  unfold inlineSchema at h
  unfold nestedSchemaOf
  rcases hpeel : t.peel with ⟨ws, fixed | core⟩
  · simp only [hpeel] at h
    cases h
    rw [TypeExpr.core?_of_peel_fixed hpeel]
    refine ⟨hr, .refl r, ?_, rfl, ?_⟩
    · rintro u ⟨⟩
    · rintro u ⟨⟩
  · simp only [hpeel] at h
    rw [TypeExpr.core?_of_peel_named hpeel] at hp ⊢
    -- behind all wrappers one named type is asked for
    obtain ⟨result, q, hrun, h⟩ := run_bind_eq_some.1 h
    have done := hreg core r result q (hp core rfl) hr hrun
    have hdecided : ∀ u ∈ some core, q.decided u.refKey := by
      rintro u ⟨⟩
      exact done.decided
    cases result with
    | ok =>
      cases h
      refine ⟨done.sound, done.grows, hdecided, ?_, ?_⟩
      · simp only [done.ok rfl, if_true]
      · rintro u ⟨⟩
        exact done.ok rfl
    | error e =>
      cases h
      exact ⟨done.sound, done.grows, hdecided, core, rfl, done.error e rfl⟩

/-- A schema that could not be made is replaced by a free one, which is what the knowledge of the
registry gives as well: the type is noted as failed. -/
theorem nestedSchema_spec (hreg : Registers resolver p reg) {t : TypeExpr}
    (hp : ∀ u ∈ t.core?, p u) {dependencies : Keys} (hr : Sound resolver p r) {x : Schema × Keys}
    (h : (nestedSchema reg t dependencies).run r = some (x, s)) :
    Sound resolver p s ∧ Grows r s ∧ (∀ u ∈ t.core?, s.decided u.refKey) ∧
      x = nestedSchemaOf (fun u => s.hasComponent u.refKey) t dependencies := by
  unfold nestedSchema at h
  obtain ⟨found, q, hrun, h⟩ := run_bind_eq_some.1 h
  obtain ⟨hs, hg, hd, hfound⟩ := inlineSchema_spec hreg hp hr hrun
  cases found with
  | ok y =>
    cases h
    exact ⟨hs, hg, hd, hfound.1⟩
  | error e =>
    cases h
    refine ⟨hs, hg, hd, ?_⟩
    -- only a type with a core can have failed
    obtain ⟨core, hcore, he⟩ := hfound
    unfold nestedSchemaOf
    split
    · next ws fixed hpeel =>
      rw [TypeExpr.core?_of_peel_fixed hpeel] at hcore
      cases hcore
    · next ws core' hpeel =>
      rw [TypeExpr.core?_of_peel_named hpeel] at hcore
      cases hcore
      simp only [hasComponent_of_error he, Bool.false_eq_true, if_false]

/-- The induction is on the fields; what is known when a field is added stays known. -/
theorem addFields_spec (hreg : Registers resolver p reg) {generics : List String}
    {args : List TypeExpr} {fields : List FieldShape}
    (hp : ∀ u ∈ (Shape.struct generics fields).mentioned args, p u) (hr : Sound resolver p r)
    {c c' : Component} (h : (addFields reg generics args fields c).run r = some (c', s)) :
    Sound resolver p s ∧ Grows r s ∧
      (∀ u ∈ (Shape.struct generics fields).mentioned args, s.decided u.refKey) ∧
      c' = fields.foldl
        (Component.addField (fun u => s.hasComponent u.refKey) generics args) c := by
  induction fields generalizing r c with
  | nil =>
    cases h
    exact ⟨hr, .refl _, (fun u hu => nomatch hu), rfl⟩
  | cons f rest ih =>
    unfold addFields at h
    obtain ⟨⟨property, dependencies⟩, q, hfield, hrest⟩ := run_bind_eq_some.1 h
    obtain ⟨hq, hg, hd, hx⟩ :=
      nestedSchema_spec hreg (fun u hu => hp u (mem_mentioned_cons.2 (.inl hu))) hr hfield
    obtain ⟨hs, hg', hd', hc⟩ :=
      ih (fun u hu => hp u (mem_mentioned_cons.2 (.inr hu))) hq hrest
    -- what the first field was told of its types is still what the registry says at the end
    have hkeeps := hg'.keeps hs
    refine ⟨hs, hg.trans hg', fun u hu => ?_, ?_⟩
    · rcases mem_mentioned_cons.1 hu with hu | hu
      · exact (hkeeps _ (hd u hu)).1
      · exact hd' u hu
    · have hsame : nestedSchemaOf (fun u => s.hasComponent u.refKey)
          (f.type.substitute generics args) c.dependencies = (property, dependencies) := by
        rw [hx]
        exact nestedSchemaOf_congr (fun u hu => (hkeeps _ (hd u hu)).2) _
      rw [List.foldl_cons, hc]
      simp only [Component.addField, hsame]

/-- A shape by its form: fields, the type inside, or no types at all. -/
theorem componentOf_spec (hreg : Registers resolver p reg) {t : TypeExpr} {shape : Shape}
    (hp : ∀ u ∈ shape.mentioned t.args, p u) (hr : Sound resolver p r) {c : Component}
    (h : (componentOf reg t shape).run r = some (c, s)) :
    Sound resolver p s ∧ Grows r s ∧ (∀ u ∈ shape.mentioned t.args, s.decided u.refKey) ∧
      c = Component.of (fun u => s.hasComponent u.refKey) t shape := by
  cases shape with
  | struct generics fields => exact addFields_spec hreg hp hr h
  | newtype inner =>
    obtain ⟨x, q, hrun, h⟩ := run_bind_eq_some.1 h
    cases h
    simp only [mem_mentioned_newtype] at hp ⊢
    obtain ⟨hs, hg, hd, rfl⟩ := nestedSchema_spec hreg hp hr hrun
    exact ⟨hs, hg, hd, rfl⟩
  | enum names =>
    cases h
    exact ⟨hr, .refl _, (fun u hu => nomatch hu), rfl⟩

end Register

/-- A call is a registration if the calls inside it, one level less deep, are. -/
theorem registration_of_registered {depth : Nat} {t : TypeExpr}
    {result : Except ResolutionError Unit} (hp : Closed resolver p)
    (ih : ∀ d, depth = d + 1 → Registers resolver p (register resolver d)) (ht : p t)
    (hr : Sound resolver p r) (h : Registered resolver depth t r result s) :
    Registration resolver p t r result s := by
  cases h with
  | known c hc =>
    exact ⟨hr, .refl r, .inl ⟨_, hc⟩, fun _ => hasComponent_of_ok hc, fun e he => (nomatch he)⟩
  | failed e he =>
    refine ⟨hr, .refl r, .inl ⟨_, he⟩, fun hok => (nomatch hok), ?_⟩
    rintro _ ⟨⟩
    exact he
  | building hnone hb =>
    refine ⟨hr, .refl r, .inr hb, fun _ => ?_, fun e he => (nomatch he)⟩
    rw [hasComponent_of_none hnone, decide_eq_true hb]
  | unknown hnew hs =>
    refine ⟨hr.fail ht hnew hs, grows_fail hnew, .inl ⟨_, get?_finish_self⟩,
      fun hok => (nomatch hok), ?_⟩
    rintro _ ⟨⟩
    exact get?_finish_self
  | built d shape c q hd hnew hs hc =>
    have hknown := Resolver.knows_of_eq_some hs
    obtain ⟨hq, hg, hdecided, hof⟩ := componentOf_spec (ih d hd)
      (fun u hu => hp t shape u ht hs hu) (hr.start ht hnew hknown) hc
    have hprogress : q.inProgress = t.refKey :: r.inProgress := hg.inProgress
    have hstored : StoredAs resolver p q t.refKey c := ⟨t, shape, ht, rfl, hs, hof, hdecided⟩
    -- the key was in progress while its fields were followed, and was answered as known
    exact ⟨hq.finish hprogress (fun hk => hnew (.inr hk)) hstored, hg.finish hnew,
      .inl ⟨_, get?_finish_self⟩, fun _ => hasComponent_of_ok get?_finish_self,
      fun e he => (nomatch he)⟩

/-- Registering keeps a registry sound and only adds to its memo. The induction is on the depth: the
calls inside a component are one level less deep. -/
theorem register_spec (hp : Closed resolver p) (depth : Nat) :
    Registers resolver p (register resolver depth) := by
  induction depth using Nat.strongRecOn with
  | ind depth ih =>
    intro t r result s ht hr h
    exact registration_of_registered hp (fun d hd => ih d (by omega)) ht hr (registered_of_run h)

end EndpointDocs.Registry
