import EndpointDocs.Proofs.Registry.Calls
import Mathlib.Algebra.Order.BigOperators.Group.List
import Mathlib.Algebra.Order.Ring.Nat
import Mathlib.Data.List.Chain

/-!
# Working off pending keys

Copying goes in rounds. A round takes a pending key off; if the key is fresh, its component is
stored and its dependencies become pending (`Round`). The registry takes the key that was added
last. Here a round may take any of them, and nothing depends on the choice:

* each round lowers the number of keys that are pending or may still become so
  (`Round.outstanding_lt`), however the dependencies are entangled, so a run has no more rounds than
  that (`Rounds.le_outstanding`);
* no round changes what copying comes to (`Round.copyComponents_eq`), so all runs that leave nothing
  pending end with the same components (`Rounds.eq_copyComponents`).

Main statement: `copyIntoVariant_reached`, by which the keys that are added are those at the ends of
paths through fresh keys.
-/

namespace EndpointDocs.Registry

variable {memo : Memo} {schemas : KeyMap String Schema} {pending : List String} {key : String}
variable {c : Component}

/-! ## Rounds -/

/-- How far copying has come: what is still pending, and what the variant has by now. -/
structure Progress where
  pending : List String
  schemas : KeyMap String Schema

/-- One key is taken off, wherever it stands. -/
inductive Round (memo : Memo) : Progress → Progress → Prop where
  | drop {before after : List String} {key : String} {schemas : KeyMap String Schema}
      (h : ∀ c, ¬ Fresh memo schemas key c) :
      Round memo ⟨before ++ key :: after, schemas⟩ ⟨before ++ after, schemas⟩
  | store {before after : List String} {key : String} {schemas : KeyMap String Schema}
      {c : Component} (h : Fresh memo schemas key c) :
      Round memo ⟨before ++ key :: after, schemas⟩
        ⟨before ++ (c.dependencies.keys.reverse ++ after), schemas.insert key c.fragment⟩

/-- As many rounds one after the other. -/
inductive Rounds (memo : Memo) : Nat → Progress → Progress → Prop where
  | none (p : Progress) : Rounds memo 0 p p
  | next {n : Nat} {p q r : Progress} (h : Round memo p q) (hrest : Rounds memo n q r) :
      Rounds memo (n + 1) p r

/-- The rounds of the registry, which takes the last key first. -/
theorem exists_rounds_copyComponents (memo : Memo) (pending : List String)
    (schemas : KeyMap String Schema) :
    ∃ n, Rounds memo n ⟨pending, schemas⟩ ⟨[], copyComponents memo pending schemas⟩ := by
  fun_induction copyComponents memo pending schemas with
  | case1 schemas => exact ⟨0, .none _⟩
  | case2 schemas first rest hs ih =>
    obtain ⟨n, hn⟩ := ih
    exact ⟨n + 1, .next (@Round.drop memo [] _ _ _ (not_fresh_of_contains hs)) hn⟩
  | case3 schemas first rest hs d hm ih =>
    obtain ⟨n, hn⟩ := ih
    exact ⟨n + 1, .next (@Round.store memo [] _ _ _ _ (fresh_of_not_contains hm hs)) hn⟩
  | case4 schemas first rest hs hm ih =>
    obtain ⟨n, hn⟩ := ih
    exact ⟨n + 1, .next (@Round.drop memo [] _ _ _ fun d hf => hm d hf.1) hn⟩

/-! ## Every run ends -/

/-- The dependencies that become pending when the entry of the memo is stored. -/
def addedBy (schemas : KeyMap String Schema) :
    String × Except ResolutionError Component → Nat
  | (key, .ok c) => if schemas.contains key then 0 else c.dependencies.keys.length
  | (_, .error _) => 0

/-- How many keys are pending or may still become so. -/
def outstanding (memo : Memo) (p : Progress) : Nat :=
  p.pending.length + (memo.entries.map (addedBy p.schemas)).sum

theorem addedBy_insert_le (schemas : KeyMap String Schema) (key : String) (s : Schema)
    (entry : String × Except ResolutionError Component) :
    addedBy (schemas.insert key s) entry ≤ addedBy schemas entry := by
  obtain ⟨k, _ | c⟩ := entry
  · exact le_rfl
  · simp only [addedBy, KeyMap.contains, KeyMap.get?_insert]
    by_cases hk : k = key
    · simp [hk]
    · simp only [if_neg hk]
      exact le_rfl

/-- What a fresh key adds to the pending ones is counted no more once the key is stored. -/
theorem sum_addedBy_insert (h : Fresh memo schemas key c) (s : Schema) :
    (memo.entries.map (addedBy (schemas.insert key s))).sum + c.dependencies.keys.length ≤
      (memo.entries.map (addedBy schemas)).sum := by
  -- the entry counts nothing once it is stored, and its dependencies before
  have hstored : addedBy (schemas.insert key s) (key, .ok c) = 0 := by
    simp [addedBy, KeyMap.contains, KeyMap.get?_insert]
  have hfresh : addedBy schemas (key, .ok c) = c.dependencies.keys.length := by
    simp [addedBy, KeyMap.contains, h.2]
  have hle : ∀ entries : List (String × Except ResolutionError Component),
      (entries.map (addedBy (schemas.insert key s))).sum ≤ (entries.map (addedBy schemas)).sum :=
    fun entries => List.sum_le_sum fun entry _ => addedBy_insert_le schemas key s entry
  obtain ⟨before, after, hentries⟩ := List.append_of_mem (KeyMap.mem_entries_iff.2 h.1)
  have hbefore := hle before
  have hafter := hle after
  simp only [hentries, List.map_append, List.map_cons, List.sum_append, List.sum_cons, hstored,
    hfresh]
  omega

theorem Round.outstanding_lt {p q : Progress} (h : Round memo p q) :
    outstanding memo q < outstanding memo p := by
  cases h with
  | drop =>
    simp only [outstanding, List.length_append, List.length_cons]
    omega
  | @store before after key schemas c h =>
    have hsum := sum_addedBy_insert h c.fragment
    simp only [outstanding, List.length_append, List.length_cons, List.length_reverse]
    omega

/-- A run has no more rounds than keys are outstanding at its start. -/
theorem Rounds.le_outstanding {n : Nat} {p q : Progress} (h : Rounds memo n p q) :
    n ≤ outstanding memo p := by
  induction h with
  | none p => exact Nat.zero_le _
  | next h _ ih => exact Nat.lt_of_le_of_lt ih h.outstanding_lt

/-! ## Every run ends with the same components -/

/-- The order of the pending keys and their repetitions do not matter. -/
theorem copyComponents_congr {more : List String} (h : ∀ k, k ∈ pending ↔ k ∈ more) :
    copyComponents memo pending schemas = copyComponents memo more schemas := by
  refine KeyMap.ext_get? fun key => Option.ext fun s => ?_
  rw [get?_copyComponents, get?_copyComponents]
  refine or_congr_right (exists_congr fun c => and_congr_left' ⟨?_, ?_⟩)
  · exact Copied.mono fun k hk => (h k).1 hk
  · exact Copied.mono fun k hk => (h k).2 hk

theorem copyComponents_drop (h : ∀ c, ¬ Fresh memo schemas key c) :
    copyComponents memo (key :: pending) schemas = copyComponents memo pending schemas := by
  rw [copyComponents]
  split
  · rfl
  · next hs =>
    split
    · next c hm => exact absurd (fresh_of_not_contains hm hs) (h c)
    · rfl

theorem copyComponents_store (h : Fresh memo schemas key c) :
    copyComponents memo (key :: pending) schemas =
      copyComponents memo (c.dependencies.keys.reverse ++ pending)
        (schemas.insert key c.fragment) := by
  rw [copyComponents]
  split
  · next hs => exact absurd h (not_fresh_of_contains hs c)
  · split
    · next d hm =>
      cases h.1.symm.trans hm
      rfl
    · next hm => exact absurd h.1 (hm c)

theorem Round.copyComponents_eq {p q : Progress} (h : Round memo p q) :
    copyComponents memo p.pending p.schemas = copyComponents memo q.pending q.schemas := by
  cases h with
  | @drop before after key schemas h =>
    -- the order of the pending keys does not matter, so the key may stand in front
    calc copyComponents memo (before ++ key :: after) schemas
        = copyComponents memo (key :: (before ++ after)) schemas :=
          copyComponents_congr fun k => List.perm_middle.mem_iff
      _ = copyComponents memo (before ++ after) schemas := copyComponents_drop h
  | @store before after key schemas c h =>
    calc copyComponents memo (before ++ key :: after) schemas
        = copyComponents memo (key :: (before ++ after)) schemas :=
          copyComponents_congr fun k => List.perm_middle.mem_iff
      _ = copyComponents memo (c.dependencies.keys.reverse ++ (before ++ after))
            (schemas.insert key c.fragment) := copyComponents_store h
      _ = copyComponents memo (before ++ (c.dependencies.keys.reverse ++ after))
            (schemas.insert key c.fragment) :=
          copyComponents_congr fun k => by simp only [List.mem_append, or_left_comm]

/-- Whichever keys are taken first, a run that leaves nothing pending ends with what the registry
makes of it. -/
theorem Rounds.eq_copyComponents {n : Nat} {p q : Progress} (h : Rounds memo n p q)
    (hq : q.pending = []) : q.schemas = copyComponents memo p.pending p.schemas := by
  induction h with
  | none p => rw [hq, copyComponents]
  | next h _ ih => rw [h.copyComponents_eq, ih hq]

/-! ## Paths -/

/-- A path along dependencies all of whose keys are fresh. -/
structure FreshPath (memo : Memo) (schemas : KeyMap String Schema) (start : String)
    (path : List String) (key : String) : Prop where
  starts : path.head? = some start
  ends : path.getLast? = some key
  fresh : ∀ k ∈ path, ∃ c, Fresh memo schemas k c
  depends : path.IsChain (DependsOn memo)

/-- The induction is on the path, from its end. -/
theorem FreshPath.copied {start : String} {path : List String}
    (h : FreshPath memo schemas start path key) : ∃ c, Copied memo schemas [start] key c := by
  induction path using List.reverseRecOn generalizing key with
  | nil => cases h.starts
  | append_singleton front last ih =>
    -- the induction takes the key off the end of its path
    have hends := h.ends
    rw [List.getLast?_concat, Option.some.injEq] at hends
    subst hends
    obtain ⟨c, hc⟩ := h.fresh last (by simp)
    rcases List.eq_nil_or_concat front with rfl | ⟨before, k, hfront⟩
    · cases h.starts
      exact ⟨c, .pending (List.mem_singleton_self _) hc⟩
    · rw [List.concat_eq_append] at hfront
      have hk : k ∈ front.getLast? := by rw [hfront, List.getLast?_concat]; rfl
      obtain ⟨hchain, -, hlast⟩ := List.isChain_append.1 h.depends
      have hfrontPath : FreshPath memo schemas start front k := by
        refine ⟨?_, hk, fun k' hk' => h.fresh k' (List.mem_append_left _ hk'), hchain⟩
        rw [← h.starts, hfront]
        simp
      -- the key in front has been copied, and its component depends on this one
      obtain ⟨d, hd⟩ := ih hfrontPath
      obtain ⟨d', hd', hdep⟩ := hlast k hk last rfl
      cases hd.fresh.1.symm.trans hd'
      exact ⟨c, .dependency hd hdep hc⟩

theorem Copied.exists_path {start : String} (h : Copied memo schemas [start] key c) :
    ∃ path, FreshPath memo schemas start path key := by
  induction h with
  | pending hk hf =>
    cases List.mem_singleton.1 hk
    refine ⟨[start], rfl, rfl, ?_, .singleton _⟩
    simpa using ⟨_, hf⟩
  | @dependency key dep c d h hd hf ih =>
    obtain ⟨path, hpath⟩ := ih
    -- the path is longer by the dependency
    refine ⟨path ++ [dep], ?_, List.getLast?_concat, ?_, ?_⟩
    · rw [List.head?_append, hpath.starts]
      rfl
    · simp only [List.mem_append, List.mem_singleton]
      rintro k (hk | rfl)
      · exact hpath.fresh k hk
      · exact ⟨d, hf⟩
    · refine List.isChain_append.2 ⟨hpath.depends, .singleton _, fun k hk k' hk' => ?_⟩
      cases hpath.ends.symm.trans hk
      cases hk'
      exact ⟨c, h.fresh.1, hd⟩

/-- What is copied for a key are the components at the ends of paths from it through fresh keys. -/
theorem copied_iff_path {start : String} :
    Copied memo schemas [start] key c ↔
      memo.get? key = some (.ok c) ∧ ∃ path, FreshPath memo schemas start path key := by
  constructor
  · exact fun h => ⟨h.fresh.1, h.exists_path⟩
  · rintro ⟨hc, path, hpath⟩
    obtain ⟨d, hd⟩ := hpath.copied
    cases hd.fresh.1.symm.trans hc
    exact hd

/-! ## Copying into a variant -/

/-- Copying into a variant ends, in whatever order keys are taken, and always with the same
components: those that the variant had, unchanged, and those of the memo at the ends of paths
through keys that have one there and none in the variant. Nothing else of the registry changes. -/
theorem copyIntoVariant_reached (r : Registry) (variant : Variant) (start : String) :
    (∀ n p, Rounds r.memo n ⟨[start], r.componentsOf variant⟩ p →
      n ≤ outstanding r.memo ⟨[start], r.componentsOf variant⟩) ∧
    (∀ s, (∃ n, Rounds r.memo n ⟨[start], r.componentsOf variant⟩ ⟨[], s⟩) ↔
      s = (r.copyIntoVariant variant start).componentsOf variant) ∧
    (∀ key s, ((r.copyIntoVariant variant start).componentsOf variant).get? key = some s ↔
      (r.componentsOf variant).get? key = some s ∨
        ∃ c path, r.memo.get? key = some (.ok c) ∧ s = c.fragment ∧
          FreshPath r.memo (r.componentsOf variant) start path key) ∧
    (∀ other, other ≠ variant →
      (r.copyIntoVariant variant start).variants.get? other = r.variants.get? other) ∧
    { r.copyIntoVariant variant start with variants := r.variants } = r := by
  have hcopied : (r.copyIntoVariant variant start).componentsOf variant =
      copyComponents r.memo [start] (r.componentsOf variant) := by
    rw [componentsOf_copyIntoVariant, if_pos rfl]
  refine ⟨fun n p h => h.le_outstanding, fun s => ⟨?_, ?_⟩, fun key s => ?_, ?_, rfl⟩
  · rintro ⟨n, h⟩
    exact (h.eq_copyComponents rfl).trans hcopied.symm
  · rintro rfl
    rw [hcopied]
    exact exists_rounds_copyComponents _ _ _
  · -- the keys that are copied are those with a fresh path
    rw [hcopied, get?_copyComponents]
    simp only [copied_iff_path]
    refine or_congr_right (exists_congr fun c => ?_)
    rw [and_assoc, and_comm (b := s = c.fragment), exists_and_left, exists_and_left]
  · intro other hother
    rw [copyIntoVariant, KeyMap.get?_insert, if_neg hother]

end EndpointDocs.Registry
