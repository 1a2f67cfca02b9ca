import EndpointDocs.Proofs.Registry.Answers

/-!
# A registry without a memo

A `Session` puts calls to a registry, one after the other. A `Reference` answers the same calls from
the resolver alone: all it remembers is which types were resolved with success, and the components
of each variant as a function. It follows types as far as they reach, so it needs no memo, no keys
in progress and no depth, but it cannot be run.

    session   ──perform──▶  session
       │                       │
    Simulates               Simulates
       │                       │
    reference ──perform──▶  reference

For types with plain names a session gives the answers of the reference.
-/

namespace EndpointDocs.Registry

open Resolving

/-! ## Sessions

A session is a list of calls with their answers. Rollback is part of it: a snapshot can be gone back
to at any later time, and more than once. -/

/-- A call of a registry. -/
inductive Call where
  | resolve (t : TypeExpr) (v : Variant)
  | inject (key : String) (v : Variant) (sample : Json)
  | lookup (key : String) (v : Variant)
  | flush (v : Variant) (target : KeyMap String Schema)
  | snapshot
  /-- Go back to the snapshot at a place, in the order in which they were taken. -/
  | restore (place : Nat)

inductive Answer where
  | resolved (answer : Except ResolutionError Schema)
  | injected (found : Bool)
  | found (schema : Option Schema)
  | flushed (components : String → Option Schema)
  | done

/-- A registry and the snapshots taken of it. -/
structure Session where
  registry : Registry := {}
  snapshots : List Snapshot := []

/-- Put one call. There is no answer if the depth is used up, or without a snapshot to go back to.
-/
def Session.perform (resolver : Resolver) (depth : Nat) (session : Session) :
    Call → Option (Answer × Session)
  | .resolve t v => do
    let (answer, r) ← (resolve resolver depth t v).run session.registry
    return (.resolved answer, { session with registry := r })
  | .inject key v sample =>
    let (found, r) := session.registry.injectSample key v sample
    some (.injected found, { session with registry := r })
  | .lookup key v => some (.found (session.registry.lookup? key v), session)
  | .flush v target => some (.flushed (session.registry.flush v target).get?, session)
  | .snapshot =>
    some (.done, { session with snapshots := session.snapshots ++ [session.registry.snapshot] })
  | .restore place => do
    let saved ← session.snapshots[place]?
    return (.done, { session with registry := session.registry.restore saved })

/-- Put calls one after the other, as long as there are answers. -/
def Session.run (resolver : Resolver) (depth : Nat) :
    List Call → Session → Option (List Answer × Session)
  | [], session => some ([], session)
  | call :: rest, session => do
    let (answer, session) ← session.perform resolver depth call
    let (answers, session) ← Session.run resolver depth rest session
    return (answer :: answers, session)

/-! ## The reference

The reference has no memo: an answer is computed from the resolver alone (`Resolver.answer`), and a
variant gets all components that the type reaches. It only has to remember which types were
resolved, because an example can be set on a component by its key, without naming the type. -/

/-- The components of each variant. -/
abbrev Components := Variant → String → Option Schema

structure Reference where
  /-- The named types resolved with success, at any time. -/
  resolved : List TypeExpr := []
  components : Components := fun _ _ => none
  snapshots : List Components := []

namespace Reference

/-- The type with the given key that a resolved type reaches. -/
noncomputable def known? (resolver : Resolver) (resolved : List TypeExpr) (key : String) :
    Option TypeExpr :=
  open Classical in
  if h : ∃ u, (∃ t ∈ resolved, resolver.Reaches t u) ∧ u.refKey = key then some h.choose else none

/-- Change the components of one variant. -/
noncomputable def change (state : Reference) (v : Variant)
    (f : (String → Option Schema) → String → Option Schema) : Reference :=
  { state with components := Function.update state.components v (f (state.components v)) }

/-- Answer one call. -/
noncomputable def perform (resolver : Resolver) (state : Reference) : Call → Answer × Reference
  | .resolve t v =>
    match resolver.answer t with
    | .error e => (.resolved (.error e), state)
    | .ok s =>
      let state := { state with resolved := state.resolved ++ t.core?.toList }
      (.resolved (.ok s), state.change v (resolver.supplyFor t))
  | .inject key v sample =>
    match known? resolver state.resolved key with
    | none => (.injected false, state)
    | some u => (.injected true, state.change v (exemplify key sample ∘ resolver.supply u))
  | .lookup key v => (.found (state.components v key), state)
  | .flush v target => (.flushed fun key => target.get? key <|> state.components v key, state)
  | .snapshot => (.done, { state with snapshots := state.snapshots ++ [state.components] })
  | .restore place =>
    (.done, { state with components := state.snapshots.getD place state.components })

section Perform

variable {resolver : Resolver} {state : Reference} {t : TypeExpr} {v : Variant}

theorem perform_resolve_error {e : ResolutionError} (h : resolver.answer t = .error e) :
    state.perform resolver (.resolve t v) = (.resolved (.error e), state) := by
  simp only [perform, h]

theorem perform_resolve_ok {s : Schema} (h : resolver.answer t = .ok s) :
    state.perform resolver (.resolve t v) = (.resolved (.ok s),
      { state with resolved := state.resolved ++ t.core?.toList }.change v
        (resolver.supplyFor t)) := by
  simp only [perform, h]

variable {key : String} {sample : Json}

theorem perform_inject_none (h : known? resolver state.resolved key = none) :
    state.perform resolver (.inject key v sample) = (.injected false, state) := by
  simp only [perform, h]

theorem perform_inject_some {u : TypeExpr} (h : known? resolver state.resolved key = some u) :
    state.perform resolver (.inject key v sample) =
      (.injected true, state.change v (exemplify key sample ∘ resolver.supply u)) := by
  simp only [perform, h]

end Perform

/-- Answer calls one after the other. -/
noncomputable def run (resolver : Resolver) : List Call → Reference → List Answer
  | [], _ => []
  | call :: rest, state =>
    let (answer, state) := state.perform resolver call
    answer :: run resolver rest state

end Reference

/-! ## The simulation

`Simulates` relates a session to the reference at the same place in the list of calls. The variants
of both agree as lookups. The memo has no counterpart, but it holds types that the resolved ones
reach (`Met`), so that a key is known to both or to neither. -/

/-- The types that a registry has met: those without a shape, and what resolved types reach. -/
def Met (resolver : Resolver) (resolved : List TypeExpr) (u : TypeExpr) : Prop :=
  u.WellNamed ∧ (resolver.knows u = true → ∃ t ∈ resolved, resolver.Reaches t u)

/-- The components of a snapshot. -/
def Snapshot.components (saved : Snapshot) : Components := fun v => ((saved.get? v).getD ∅).get?

/-- The reference stands for the session. -/
structure Simulates (resolver : Resolver) (state : Reference) (session : Session) : Prop where
  valid : Valid resolver (Met resolver state.resolved) session.registry
  resolved : ∀ t ∈ state.resolved,
    t.WellNamed ∧ ∃ c, session.registry.memo.get? t.refKey = some (.ok c)
  components : ∀ v, (session.registry.componentsOf v).get? = state.components v
  snapshots : state.snapshots = session.snapshots.map Snapshot.components
  saved : ∀ saved ∈ session.snapshots, ∀ v,
    Copies session.registry.memo ((saved.get? v).getD ∅)

variable {resolver : Resolver} {depth : Nat} {resolved more : List TypeExpr}

theorem Met.wellNamed {u : TypeExpr} (h : Met resolver resolved u) : u.WellNamed := h.1

/-- A larger list of resolved types has met all of these as well. -/
theorem Met.mono (hsub : ∀ t ∈ resolved, t ∈ more) {u : TypeExpr}
    (h : Met resolver resolved u) : Met resolver more u := by
  refine ⟨h.1, fun hk => ?_⟩
  obtain ⟨t, ht, hreach⟩ := h.2 hk
  exact ⟨t, hsub t ht, hreach⟩

/-- What a type mentions is reached from where the type is. -/
theorem Met.closed (hresolver : resolver.WellNamed) : Closed resolver (Met resolver resolved) := by
  intro t shape u ht hs hu
  refine ⟨hresolver.mentioned hs (TypeExpr.wellNamed_iff.1 ht.1).2 hu, fun hk => ?_⟩
  obtain ⟨t₀, ht₀, hreach⟩ := ht.2 (Resolver.knows_of_eq_some hs)
  exact ⟨t₀, ht₀, hreach.tail ⟨shape, hs, hu, hk⟩⟩

/-- The type is one that a resolved type reaches, and it has the key. -/
theorem known?_eq_some {key : String} {u : TypeExpr}
    (h : Reference.known? resolver resolved key = some u) :
    (∃ t ∈ resolved, resolver.Reaches t u) ∧ u.refKey = key := by
  unfold Reference.known? at h
  split at h
  · next hex =>
    cases h
    exact hex.choose_spec
  · cases h

theorem known?_eq_none {key : String} (h : Reference.known? resolver resolved key = none)
    {t u : TypeExpr} (ht : t ∈ resolved) (hreach : resolver.Reaches t u) : u.refKey ≠ key := by
  unfold Reference.known? at h
  split at h
  · cases h
  · next hex => exact fun hkey => hex ⟨u, ⟨t, ht, hreach⟩, hkey⟩

theorem Sound.mono {p p' : TypeExpr → Prop} {r : Registry} (hsub : ∀ u, p u → p' u)
    (h : Sound resolver p r) : Sound resolver p' r where
  building hb := by
    obtain ⟨hnone, t, ht, hrest⟩ := h.building hb
    exact ⟨hnone, t, hsub t ht, hrest⟩
  failed he := by
    obtain ⟨t, ht, hrest⟩ := h.failed he
    exact ⟨t, hsub t ht, hrest⟩
  stored hc := by
    obtain ⟨t, shape, ht, hrest⟩ := h.stored hc
    exact ⟨t, shape, hsub t ht, hrest⟩

theorem Valid.mono {p p' : TypeExpr → Prop} {r : Registry} (hsub : ∀ u, p u → p' u)
    (h : Valid resolver p r) : Valid resolver p' r :=
  ⟨h.sound.mono hsub, h.idle, h.copies⟩

/-- A new session and a new reference know nothing. -/
theorem Simulates.initial : Simulates resolver {} {} where
  valid := .empty
  resolved _ ht := nomatch ht
  components _ := rfl
  snapshots := rfl
  saved _ hs := nomatch hs

/-- The registry of a session changes, and its memo only grows. -/
theorem Simulates.update {state : Reference} {session : Session} {components : Components}
    {r : Registry} (h : Simulates resolver state session)
    (hvalid : Valid resolver (Met resolver more) r)
    (hmemo : ∀ {key x}, session.registry.memo.get? key = some x → r.memo.get? key = some x)
    (hmore : ∀ t ∈ more, t.WellNamed ∧ ∃ c, r.memo.get? t.refKey = some (.ok c))
    (hcomponents : ∀ v, (r.componentsOf v).get? = components v) :
    Simulates resolver { state with resolved := more, components := components }
      { session with registry := r } where
  valid := hvalid
  resolved := hmore
  components := hcomponents
  snapshots := h.snapshots
  saved saved hs v := (h.saved saved hs v).grow hmemo

section Step

variable {state : Reference} {session session' : Session} {answer : Answer}
variable (h : Simulates resolver state session) (hresolver : resolver.WellNamed)

include h hresolver

/-- A call of `resolve`. Its type is among the resolved ones before the registry sees it, for it is
part of what is met then. -/
theorem Simulates.resolve {t : TypeExpr} (ht : t.WellNamed) {v : Variant}
    (hrun : session.perform resolver depth (.resolve t v) = some (answer, session')) :
    answer = (state.perform resolver (.resolve t v)).1 ∧
      Simulates resolver (state.perform resolver (.resolve t v)).2 session' := by
  obtain ⟨⟨found, r⟩, hr, hreturn⟩ := Option.bind_eq_some_iff.1 hrun
  cases hreturn
  cases hanswer : resolver.answer t with
  | error e =>
    rw [Reference.perform_resolve_error hanswer]
    -- the type inside has no shape, so it counts as met
    have hcore : ∀ u ∈ t.core?, Met resolver state.resolved u := by
      intro u hu
      refine ⟨TypeExpr.wellNamed_of_core? ht hu, fun hk => ?_⟩
      rw [Resolver.knows_of_answer_error hanswer u hu] at hk
      cases hk
    have hresolved := resolved_of_run (Met.closed hresolver) hcore h.valid hr
    obtain ⟨hfound, hcomponents⟩ :=
      hresolved.eq_answer (Met.closed hresolver) (fun _ => Met.wellNamed) h.valid hresolver ht
    refine ⟨by rw [hfound, hanswer], h.update (hresolved.valid h.valid) hresolved.memo ?_ ?_⟩
    · intro u hu
      obtain ⟨hnamed, c, hc⟩ := h.resolved u hu
      exact ⟨hnamed, c, hresolved.memo hc⟩
    · intro w
      rw [hcomponents, Resolver.supplyFor_of_answer_error hanswer]
      split
      · next hwv => rw [hwv, h.components]
      · exact h.components w
  | ok s =>
    rw [Reference.perform_resolve_ok hanswer]
    have hcore : ∀ u ∈ t.core?, Met resolver (state.resolved ++ t.core?.toList) u := by
      intro u hu
      refine ⟨TypeExpr.wellNamed_of_core? ht hu, fun _ => ⟨u, ?_, .refl⟩⟩
      exact List.mem_append_right _ (Option.mem_toList.2 hu)
    -- the registry is valid for the greater list, too: it has met fewer types
    have hvalid : Valid resolver (Met resolver (state.resolved ++ t.core?.toList))
        session.registry := h.valid.mono fun u hu => hu.mono fun _ => List.mem_append_left _
    have hresolved := resolved_of_run (Met.closed hresolver) hcore hvalid hr
    obtain ⟨hfound, hcomponents⟩ :=
      hresolved.eq_answer (Met.closed hresolver) (fun _ => Met.wellNamed) hvalid hresolver ht
    rw [hanswer] at hfound
    subst hfound
    refine ⟨rfl, h.update (hresolved.valid hvalid) hresolved.memo ?_ ?_⟩
    · intro u hu
      rcases List.mem_append.1 hu with hu | hu
      · obtain ⟨hnamed, c, hc⟩ := h.resolved u hu
        exact ⟨hnamed, c, hresolved.memo hc⟩
      · have hu := Option.mem_toList.1 hu
        exact ⟨TypeExpr.wellNamed_of_core? ht hu, hresolved.registered u hu⟩
    · intro w
      rw [hcomponents, Function.update_apply, h.components, h.components]

/-- An example is set on a component that the memo holds. If the memo holds it, a resolved type
reaches it; and if a resolved type reaches it, its component was built together with that one. -/
theorem Simulates.inject {key : String} {v : Variant} {sample : Json}
    (hrun : session.perform resolver depth (.inject key v sample) = some (answer, session')) :
    answer = (state.perform resolver (.inject key v sample)).1 ∧
      Simulates resolver (state.perform resolver (.inject key v sample)).2 session' := by
  have hinject : session.perform resolver depth (.inject key v sample) =
      some (.injected (session.registry.injectSample key v sample).1,
        { session with registry := (session.registry.injectSample key v sample).2 }) := rfl
  rw [hinject] at hrun
  obtain ⟨rfl, rfl⟩ := Prod.mk.inj (Option.some.inj hrun)
  obtain ⟨-, hmemo, -⟩ := injectSample_eq session.registry key v sample
  have hresolved : ∀ t ∈ state.resolved, t.WellNamed ∧
      ∃ c, (session.registry.injectSample key v sample).2.memo.get? t.refKey = some (.ok c) := by
    rw [hmemo]
    exact h.resolved
  cases hknown : Reference.known? resolver state.resolved key with
  | none =>
    rw [Reference.perform_inject_none hknown]
    -- a component in the memo is that of a type which a resolved one reaches
    have hnot : ∀ c, session.registry.memo.get? key ≠ some (.ok c) := by
      intro c hc
      obtain ⟨u, shape, hu, hkey, hs, -⟩ := h.valid.sound.stored hc
      obtain ⟨t, ht, hreach⟩ := hu.2 (Resolver.knows_of_eq_some hs)
      exact known?_eq_none hknown ht hreach hkey
    obtain ⟨hfound, hcomponents⟩ := h.valid.injectSample_of_not_ok hnot v sample
    refine ⟨by rw [hfound], h.update h.valid.injectSample (fun hx => hmemo ▸ hx) hresolved ?_⟩
    exact fun w => (hcomponents w).trans (h.components w)
  | some u =>
    rw [Reference.perform_inject_some hknown]
    obtain ⟨⟨t, ht, hreach⟩, rfl⟩ := known?_eq_some hknown
    obtain ⟨hnamed, c, hc⟩ := h.resolved t ht
    obtain ⟨-, d, hd⟩ := h.valid.sound.path_of_reaches (Met.closed hresolver)
      (fun _ => Met.wellNamed) h.valid.idle hresolver hnamed hc hreach
    obtain ⟨hfound, hcomponents⟩ := h.valid.injectSample_of_ok (Met.closed hresolver)
      (fun _ => Met.wellNamed) hresolver (hreach.wellNamed hresolver hnamed) hd v
      sample
    refine ⟨by rw [hfound], h.update h.valid.injectSample (fun hx => hmemo ▸ hx) hresolved ?_⟩
    intro w
    rw [hcomponents, Function.update_apply, h.components, h.components]
    rfl

/-- One call: the session and the reference give the same answer and stay together. -/
theorem Simulates.perform {call : Call} (hcall : ∀ t v, call = .resolve t v → t.WellNamed)
    (hrun : session.perform resolver depth call = some (answer, session')) :
    answer = (state.perform resolver call).1 ∧
      Simulates resolver (state.perform resolver call).2 session' := by
  cases call with
  | resolve t v => exact h.resolve hresolver (hcall t v rfl) hrun
  | inject key v sample => exact h.inject hresolver hrun
  | lookup key v =>
    cases hrun
    refine ⟨?_, h⟩
    rw [lookup?_eq, h.components]
    rfl
  | flush v target =>
    cases hrun
    refine ⟨?_, h⟩
    have hflush : (session.registry.flush v target).get? =
        fun key => target.get? key <|> state.components v key := by
      funext key
      rw [get?_flush, h.components]
    rw [hflush]
    rfl
  | snapshot =>
    cases hrun
    refine ⟨rfl, h.valid, h.resolved, h.components, ?_, ?_⟩
    -- a snapshot is of the variants alone
    · have hnow : state.components = Snapshot.components session.registry.snapshot :=
        funext fun v => (h.components v).symm
      show state.snapshots ++ [state.components] = _
      rw [List.map_append, h.snapshots, hnow]
      rfl
    · intro saved hs v
      rcases List.mem_append.1 hs with hs | hs
      · exact h.saved saved hs v
      · rw [List.mem_singleton.1 hs]
        exact h.valid.copies v
  | restore place =>
    obtain ⟨saved, hsaved, hreturn⟩ := Option.bind_eq_some_iff.1 hrun
    cases hreturn
    have hmem := h.saved saved (List.mem_of_getElem? hsaved)
    refine ⟨rfl, h.valid.restore hmem, h.resolved, fun v => ?_, h.snapshots, h.saved⟩
    show _ = (state.snapshots.getD place state.components) v
    -- the snapshots of both were taken at the same calls, so the same place leads to the same
    -- components
    rw [h.snapshots, List.getD_eq_getElem?_getD, List.getElem?_map, hsaved]
    rfl

end Step

/-- A session of calls for well-named types gives the answers of the reference. The induction is on
the calls, with the reference that has answered those before. -/
theorem run_eq_reference {calls : List Call} {answers : List Answer}
    {session session' : Session} {state : Reference} (hresolver : resolver.WellNamed)
    (hcalls : ∀ t v, .resolve t v ∈ calls → t.WellNamed)
    (h : Simulates resolver state session)
    (hrun : session.run resolver depth calls = some (answers, session')) :
    answers = Reference.run resolver calls state := by
  induction calls generalizing session state answers with
  | nil =>
    cases hrun
    rfl
  | cons call rest ih =>
    obtain ⟨⟨answer, next⟩, hcall, hrun⟩ := Option.bind_eq_some_iff.1 hrun
    obtain ⟨⟨later, last⟩, hrest, hreturn⟩ := Option.bind_eq_some_iff.1 hrun
    cases hreturn
    obtain ⟨hanswer, hnext⟩ := h.perform hresolver
      (fun t v he => hcalls t v (he ▸ List.mem_cons_self)) hcall
    rw [Reference.run, hanswer,
      ih (fun t v ht => hcalls t v (List.mem_cons_of_mem _ ht)) hnext hrest]

/-- A new registry answers calls for types with plain names as if it had no memo. -/
theorem answers_eq_reference {calls : List Call} {answers : List Answer} {session : Session}
    (hresolver : resolver.WellNamed) (hcalls : ∀ t v, .resolve t v ∈ calls → t.WellNamed)
    (hrun : Session.run resolver depth calls {} = some (answers, session)) :
    answers = Reference.run resolver calls {} :=
  run_eq_reference hresolver hcalls .initial hrun

/-- Lists whose nodes refer to themselves, and a field of a type that is not known. -/
def linkedLists : Resolver := fun name =>
  if name = "Node" then
    some (.struct ["T"] [⟨"value", ⟨"T", []⟩, none⟩,
      ⟨"next", ⟨"Option", [⟨"Box", [⟨"Node", [⟨"T", []⟩]⟩]⟩]⟩, none⟩,
      ⟨"color", ⟨"Color", []⟩, none⟩, ⟨"extra", ⟨"Missing", []⟩, none⟩])
  else if name = "Color" then some (.enum ["Red", "Blue"])
  else none

def linkedListCalls : List Call :=
  let v : Variant := ⟨"audience", "partners"⟩
  [.resolve ⟨"Vec", [⟨"Node", [⟨"Color", []⟩]⟩]⟩ .default, .snapshot,
    .inject "Color" .default (.string "Red"), .resolve ⟨"Missing", []⟩ v,
    .inject "Missing" v .null, .inject "Node.Color" v .null, .restore 0,
    .lookup "Color" .default, .flush v ∅]

theorem wellNamed_linkedLists : linkedLists.WellNamed := by
  intro name shape h t ht
  unfold linkedLists at h
  split at h
  · cases h
    simp only [Shape.declaredTypes, List.map_cons, List.map_nil, List.mem_cons, List.not_mem_nil,
      or_false] at ht
    rcases ht with rfl | rfl | rfl | rfl <;>
      simp [TypeExpr.WellNamed, TypeExpr.AllWellNamed, PlainName]
  · split at h
    · cases h
      cases ht
    · cases h

theorem wellNamed_linkedListCalls (t : TypeExpr) (v : Variant)
    (h : .resolve t v ∈ linkedListCalls) : t.WellNamed := by
  simp only [linkedListCalls, List.mem_cons, Call.resolve.injEq, List.not_mem_nil, or_false,
    reduceCtorEq, false_or] at h
  rcases h with ⟨rfl, -⟩ | ⟨rfl, -⟩ <;>
    simp [TypeExpr.WellNamed, TypeExpr.AllWellNamed, PlainName]

/-- Setting an example changes the variants only, whatever it finds. -/
theorem Session.perform_inject (resolver : Resolver) (depth : Nat) (session : Session)
    (key : String) (v : Variant) (sample : Json) :
    session.perform resolver depth (.inject key v sample) =
      let (found, r) := session.registry.injectSample key v sample
      some (.injected found,
        { session with registry := { session.registry with variants := r.variants } }) := by
  unfold perform injectSample
  dsimp only
  split <;> rfl

theorem linkedLists_answers : (Session.run linkedLists 3 linkedListCalls {}).map Prod.fst =
    some (Reference.run linkedLists linkedListCalls {}) := by
  -- whether a call returns depends on the memo, and this is computed without the variants
  have hreturns : (Session.run linkedLists 3 linkedListCalls {}).isSome = true := by
    simp only [linkedListCalls, Session.run, Session.perform_inject]
    decide +kernel
  obtain ⟨⟨answers, session⟩, hrun⟩ := Option.isSome_iff_exists.1 hreturns
  have h := answers_eq_reference wellNamed_linkedLists wellNamed_linkedListCalls hrun
  rw [hrun, Option.map_some, h]

end EndpointDocs.Registry
