import EndpointDocs.Registry
import EndpointDocs.Proofs.KeyMap
import Mathlib.Logic.Relation

/-!
# What is copied into a variant

`copyComponents` works off a list of pending keys. It stores exactly the keys that are reached from
these through components of the memo that the variant does not have yet (`Copied`,
`get?_copyComponents`): a component that is there already is kept as it is, and nothing behind it is
looked at. So the copies of a variant have to be complete at any time: what one of them refers to is
there as well (`Copies`), and copying keeps it so.
-/

namespace EndpointDocs.Registry

/-- What is known of types. -/
abbrev Memo := KeyMap String (Except ResolutionError Component)

variable {memo : Memo} {schemas : KeyMap String Schema} {pending : List String} {key : String}
variable {c : Component}

/-- The memo has a component for the key and the variant has none. -/
def Fresh (memo : Memo) (schemas : KeyMap String Schema) (key : String) (c : Component) : Prop :=
  memo.get? key = some (.ok c) ∧ schemas.get? key = none

theorem not_fresh_of_contains (h : schemas.contains key = true) (c : Component) :
    ¬ Fresh memo schemas key c := by
  intro hf
  rw [KeyMap.contains, hf.2] at h
  cases h

theorem fresh_of_not_contains (hm : memo.get? key = some (.ok c))
    (hs : ¬ schemas.contains key = true) : Fresh memo schemas key c := by
  refine ⟨hm, ?_⟩
  rw [KeyMap.contains, Option.isSome_iff_ne_none, not_not] at hs
  exact hs

/-- A key that is reached from a pending one by dependencies, through fresh keys only. -/
inductive Copied (memo : Memo) (schemas : KeyMap String Schema) (pending : List String) :
    String → Component → Prop where
  | pending {key : String} {c : Component} (h : key ∈ pending) (hf : Fresh memo schemas key c) :
      Copied memo schemas pending key c
  | dependency {key dep : String} {c d : Component} (h : Copied memo schemas pending key c)
      (hd : dep ∈ c.dependencies.keys) (hf : Fresh memo schemas dep d) :
      Copied memo schemas pending dep d

namespace Copied

theorem fresh (h : Copied memo schemas pending key c) : Fresh memo schemas key c := by
  cases h with
  | pending _ hf => exact hf
  | dependency _ _ hf => exact hf

theorem mono {more : List String} (hsub : ∀ k ∈ pending, k ∈ more)
    (h : Copied memo schemas pending key c) : Copied memo schemas more key c := by
  induction h with
  | pending hk hf => exact .pending (hsub _ hk) hf
  | dependency _ hd hf ih => exact .dependency ih hd hf

/-- A pending key that is not fresh leads nowhere. -/
theorem of_cons {first : String} (hnot : ∀ d, ¬ Fresh memo schemas first d)
    (h : Copied memo schemas (first :: pending) key c) : Copied memo schemas pending key c := by
  induction h with
  | pending hk hf =>
    rcases List.mem_cons.1 hk with rfl | hk
    · exact absurd hf (hnot _)
    · exact .pending hk hf
  | dependency _ hd hf ih => exact .dependency ih hd hf

section Store

variable {first : String} {d : Component}

theorem fresh_insert {s : Schema} :
    Fresh memo (schemas.insert first s) key c ↔ key ≠ first ∧ Fresh memo schemas key c := by
  unfold Fresh
  rw [KeyMap.get?_insert]
  by_cases hk : key = first
  · simp [hk]
  · simp [hk]

/-- What is left to do behind a fresh key: of a path through it, only what follows it last. -/
theorem rest (hfirst : Fresh memo schemas first d)
    (h : Copied memo schemas (first :: pending) key c) (hne : key ≠ first) :
    Copied memo (schemas.insert first d.fragment) (d.dependencies.keys.reverse ++ pending)
      key c := by
  induction h with
  | pending hk hf =>
    have hk' := (List.mem_cons.1 hk).resolve_left hne
    exact .pending (List.mem_append_right _ hk') (fresh_insert.2 ⟨hne, hf⟩)
  | @dependency key dep c d' h hd hf ih =>
    have hf' : Fresh memo (schemas.insert first d.fragment) dep d' := fresh_insert.2 ⟨hne, hf⟩
    by_cases hk : key = first
    · -- the path goes through `first`: forget what is in front of it
      subst hk
      have hc : c = d := by
        have := h.fresh.1.symm.trans hfirst.1
        cases this
        rfl
      subst hc
      exact .pending (List.mem_append_left _ (List.mem_reverse.2 hd)) hf'
    · exact .dependency (ih hk) hd hf'

theorem of_rest (hfirst : Fresh memo schemas first d)
    (h : Copied memo (schemas.insert first d.fragment) (d.dependencies.keys.reverse ++ pending)
      key c) : Copied memo schemas (first :: pending) key c := by
  induction h with
  | pending hk hf =>
    have hf' := (fresh_insert.1 hf).2
    rcases List.mem_append.1 hk with hk | hk
    · have hroot : Copied memo schemas (first :: pending) first d :=
        .pending List.mem_cons_self hfirst
      exact .dependency hroot (List.mem_reverse.1 hk) hf'
    · exact .pending (List.mem_cons_of_mem _ hk) hf'
  | dependency _ hd hf ih => exact .dependency ih hd (fresh_insert.1 hf).2

end Store

end Copied

/-- Behind copying, a key has the schema it had, or the fragment of the memo if it was reached. -/
theorem get?_copyComponents {s : Schema} :
    (copyComponents memo pending schemas).get? key = some s ↔
      schemas.get? key = some s ∨ ∃ c, Copied memo schemas pending key c ∧ s = c.fragment := by
  fun_induction copyComponents memo pending schemas with
  | case1 schemas =>
    -- nothing is pending, so nothing is reached
    refine (or_iff_left ?_).symm
    rintro ⟨c, h, -⟩
    induction h with
    | pending hk => cases hk
    | dependency _ _ _ ih => exact ih
  | case2 schemas first rest hs ih =>
    -- the variant has the key
    have hnot : ∀ c, ¬ Fresh memo schemas first c := not_fresh_of_contains hs
    rw [ih]
    refine or_congr_right (exists_congr fun c => and_congr_left' ⟨?_, .of_cons hnot⟩)
    exact Copied.mono fun k hk => List.mem_cons_of_mem _ hk
  | case3 schemas first rest hs d hm ih =>
    -- the key is fresh: its fragment is stored, its dependencies are pending
    have hfirst := fresh_of_not_contains hm hs
    rw [ih, KeyMap.get?_insert]
    by_cases hk : key = first
    · subst hk
      rw [if_pos rfl, hfirst.2]
      constructor
      · rintro (h | ⟨c, h, rfl⟩)
        · cases h
          exact .inr ⟨d, .pending List.mem_cons_self hfirst, rfl⟩
        · exact absurd rfl (Copied.fresh_insert.1 h.fresh).1
      · rintro (h | ⟨c, h, rfl⟩)
        · cases h
        · have hc := h.fresh.1.symm.trans hm
          cases hc
          exact .inl rfl
    · rw [if_neg hk]
      exact or_congr_right (exists_congr fun c =>
        and_congr_left' ⟨.of_rest hfirst, fun h => h.rest hfirst hk⟩)
  | case4 schemas first rest hs hm ih =>
    -- the memo has no component of the key
    rw [ih]
    refine or_congr_right (exists_congr fun c => and_congr_left' ⟨?_, .of_cons ?_⟩)
    · exact Copied.mono fun k hk => List.mem_cons_of_mem _ hk
    · rintro d hf
      exact hm d hf.1

/-- There is nothing to do for a key that the variant has. -/
theorem copyComponents_of_has (h : ∃ s, schemas.get? key = some s) :
    copyComponents memo [key] schemas = schemas := by
  have hcontains : schemas.contains key = true := KeyMap.contains_iff.2 h
  rw [copyComponents, dif_pos hcontains, copyComponents]

/-! ## Copies -/

/-- Every dependency of a component in the memo has a component there. -/
def Memo.Complete (memo : Memo) : Prop :=
  ∀ key c, memo.get? key = some (.ok c) → ∀ dep ∈ c.dependencies.keys,
    ∃ d, memo.get? dep = some (.ok d)

/-- The schemas are those of components in the memo, apart from their examples, and what a component
refers to is among them. -/
def Copies (memo : Memo) (schemas : KeyMap String Schema) : Prop :=
  ∀ key s, schemas.get? key = some s → ∃ c, memo.get? key = some (.ok c) ∧
    s = { c.fragment with sample := s.sample } ∧
    ∀ dep ∈ c.dependencies.keys, ∃ s', schemas.get? dep = some s'

theorem Copies.empty : Copies memo ∅ := fun key s h => by cases h

theorem Copies.grow {more : Memo} (hgrows : ∀ {k x}, memo.get? k = some x → more.get? k = some x)
    (h : Copies memo schemas) : Copies more schemas := by
  intro key s hs
  obtain ⟨c, hc, hrest⟩ := h key s hs
  exact ⟨c, hgrows hc, hrest⟩

/-- With an example of its own, a copy is still a copy. -/
theorem Copies.sample {s : Schema} {sample : Option Json} (h : Copies memo schemas)
    (hs : schemas.get? key = some s) :
    Copies memo (schemas.insert key { s with sample := sample }) := by
  -- no key goes away when one gets an example
  have hhas : ∀ dep, (∃ s', schemas.get? dep = some s') →
      ∃ s', (schemas.insert key { s with sample := sample }).get? dep = some s' := by
    rintro dep ⟨s', hs'⟩
    rw [KeyMap.get?_insert]
    split
    · exact ⟨_, rfl⟩
    · exact ⟨s', hs'⟩
  intro k s' hs'
  rw [KeyMap.get?_insert] at hs'
  split at hs'
  · next hk =>
    cases hs'
    obtain ⟨c, hc, hfragment, hdeps⟩ := h key s hs
    refine ⟨c, hk ▸ hc, ?_, fun dep hd => hhas dep (hdeps dep hd)⟩
    rw [hfragment]
  · obtain ⟨c, hc, hfragment, hdeps⟩ := h k s' hs'
    exact ⟨c, hc, hfragment, fun dep hd => hhas dep (hdeps dep hd)⟩

/-- The key has a schema behind copying if it had one, or if it was reached. -/
theorem exists_get?_copyComponents :
    (∃ s, (copyComponents memo pending schemas).get? key = some s) ↔
      (∃ s, schemas.get? key = some s) ∨ ∃ c, Copied memo schemas pending key c := by
  simp only [get?_copyComponents, exists_or]
  refine or_congr_right ⟨?_, ?_⟩
  · rintro ⟨s, c, h, -⟩
    exact ⟨c, h⟩
  · rintro ⟨c, h⟩
    exact ⟨c.fragment, c, h, rfl⟩

theorem Copies.copy (hm : memo.Complete) (h : Copies memo schemas) :
    Copies memo (copyComponents memo pending schemas) := by
  intro key s hs
  rcases get?_copyComponents.1 hs with hs | ⟨c, hcopied, rfl⟩
  · obtain ⟨c, hc, hfragment, hdeps⟩ := h key s hs
    exact ⟨c, hc, hfragment, fun dep hd => exists_get?_copyComponents.2 (.inl (hdeps dep hd))⟩
  · refine ⟨c, hcopied.fresh.1, ?_, fun dep hd => exists_get?_copyComponents.2 ?_⟩
    · cases c.fragment
      rfl
    obtain ⟨d, hdep⟩ := hm key c hcopied.fresh.1 dep hd
    -- a dependency that the variant lacks is fresh, so it was copied along
    cases hs : schemas.get? dep with
    | some s => exact .inl ⟨s, rfl⟩
    | none => exact .inr ⟨d, .dependency hcopied hd ⟨hdep, hs⟩⟩

/-! ## Copies and reachability -/

/-- The key of a component that depends on the next one. -/
def DependsOn (memo : Memo) (key dep : String) : Prop :=
  ∃ c, memo.get? key = some (.ok c) ∧ dep ∈ c.dependencies.keys

/-- What is reached from a key that the variant has is in the variant as well. -/
theorem Copies.exists_of_reaches (h : Copies memo schemas) {dep : String}
    (hr : Relation.ReflTransGen (DependsOn memo) key dep) (hs : ∃ s, schemas.get? key = some s) :
    ∃ s, schemas.get? dep = some s := by
  induction hr with
  | refl => exact hs
  | @tail k dep _ hstep ih =>
    obtain ⟨s, hs⟩ := ih
    obtain ⟨c, hc, hd⟩ := hstep
    obtain ⟨c', hc', -, hdeps⟩ := h k s hs
    rw [hc] at hc'
    cases hc'
    exact hdeps dep hd

/-- If the variant's copies are complete, what is copied is what it lacks of all that is reached. -/
theorem copied_iff (h : Copies memo schemas) {start : String} :
    Copied memo schemas [start] key c ↔
      Fresh memo schemas key c ∧ Relation.ReflTransGen (DependsOn memo) start key := by
  constructor
  · intro hcopied
    induction hcopied with
    | pending hk hf => exact ⟨hf, List.mem_singleton.1 hk ▸ .refl⟩
    | dependency hk hd hf ih => exact ⟨hf, ih.2.tail ⟨_, hk.fresh.1, hd⟩⟩
  · rintro ⟨hf, hr⟩
    induction hr generalizing c with
    | refl => exact .pending (List.mem_singleton_self _) hf
    | @tail k dep hk hstep ih =>
      obtain ⟨d, hd, hdep⟩ := hstep
      -- nothing that is fresh stands behind a copy
      cases hs : schemas.get? k with
      | none => exact .dependency (ih ⟨hd, hs⟩) hdep hf
      | some s =>
        obtain ⟨s', hs'⟩ := h.exists_of_reaches (.single ⟨d, hd, hdep⟩) ⟨s, hs⟩
        rw [hf.2] at hs'
        cases hs'

end EndpointDocs.Registry
