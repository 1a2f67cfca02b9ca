import EndpointDocs.Proofs.Registry.Extends
import EndpointDocs.Proofs.Registry.Leading

/-!
# Registries that are ahead

A registry is ahead of another one if it has met all that the other one has met, and the other one
all that it is still building (`Ahead`). A run that ends on one registry ends, at the same depth, on
those that are ahead of it (`endsAhead_register`): where the one behind follows a type, the one
ahead follows it as well, or has followed all that the type mentions before. So what is resolved on
a registry stays resolved while the registry grows (`resolve_on_later`), and never needs more depth
than the first time.
-/

namespace EndpointDocs.Registry

open Resolving

variable {resolver : Resolver} {r s r' s' : Registry} {key : String} {t : TypeExpr} {depth : Nat}

/-! ## Being ahead

The relation is symmetric in form: what one has begun the other has met. Two registries that both
start or finish a key stay related, and so does a pair of which only the one behind moves. -/

/-- `r'` has met all that `r` has met, and `r` all that `r'` is still building. -/
structure Ahead (r r' : Registry) : Prop where
  decided : ∀ {key}, r.decided key → r'.decided key
  building : ∀ {key}, key ∈ r'.inProgress → r.decided key

namespace Ahead

/-- Between calls it is enough that the memo has grown. -/
theorem of_extends (hidle : r.inProgress = []) (hidle' : r'.inProgress = []) (h : Extends r r') :
    Ahead r r' where
  decided hk := by
    rcases hk with ⟨x, hx⟩ | hb
    · exact .inl ⟨x, h.memo hx⟩
    · rw [hidle] at hb
      cases hb
  building hb := by
    rw [hidle'] at hb
    cases hb

/-- The registry behind decides a key that the one ahead has decided. -/
theorem behind (h : Ahead r r') (hs : ∀ k, s.decided k ↔ k = key ∨ r.decided k)
    (hkey : r'.decided key) : Ahead s r' where
  decided {k} hk := by
    rcases (hs k).1 hk with rfl | hk
    · exact hkey
    · exact h.decided hk
  building hb := (hs _).2 (.inr (h.building hb))

/-- Both decide the same key. -/
theorem both (h : Ahead r r') (hs : ∀ k, s.decided k ↔ k = key ∨ r.decided k)
    (hs' : ∀ k, s'.decided k ↔ k = key ∨ r'.decided k)
    (hb : ∀ k ∈ s'.inProgress, k = key ∨ k ∈ r'.inProgress) : Ahead s s' where
  decided {k} hk := (hs' k).2 (((hs k).1 hk).imp_right h.decided)
  building {k} hk := (hs k).2 ((hb k hk).imp_right h.building)

/-- Both start the same key. -/
theorem start (h : Ahead r r') (key name : String) : Ahead (r.start key name) (r'.start key name) :=
  h.both (fun _ => decided_start) (fun _ => decided_start) fun _ => List.mem_cons.1

/-- Both finish it, whatever they made of it. -/
theorem finish (h : Ahead r r') {result result' : Except ResolutionError Component} :
    Ahead (r.finish key result) (r'.finish key result') :=
  h.both (fun _ => decided_finish) (fun _ => decided_finish)
    fun _ hk => .inr (List.mem_of_mem_erase hk)

end Ahead

section WellNamed

variable (hresolver : resolver.WellNamed)

include hresolver

/-- A registry does not get past one that has met the type. The induction is on the depth: what the
type mentions has been met there as well. -/
theorem leads_register_behind (hr' : Sound resolver TypeExpr.WellNamed r') (ht : t.WellNamed)
    (hdecided : r'.decided t.refKey) :
    Leads (fun r s => Ahead r r' → Ahead s r') (register resolver depth t) := by
  induction depth using Nat.strongRecOn generalizing t with
  | ind depth ih =>
    intro r result s hrun hahead
    cases registered_of_run hrun with
    | known => exact hahead
    | failed => exact hahead
    | building => exact hahead
    | unknown => exact hahead.behind (fun _ => decided_fail) hdecided
    | built d shape c q hd hnew hs hc =>
      -- what the registry ahead is building was met, so the type is in its memo
      have hmemo : ∃ x, r'.memo.get? t.refKey = some x :=
        hdecided.resolve_right fun hb => hnew (hahead.building hb)
      obtain ⟨x, hx⟩ := hmemo
      have hmentioned := hr'.decided_of_mentioned (fun _ => id) ht hx hs
      have hcalls : Leads (fun r s => Ahead r r' → Ahead s r')
          (componentOf (register resolver d) t shape) := by
        refine leads_componentOf (R := fun r s => Ahead r r' → Ahead s r') (fun _ => id)
          (fun h h' => h' ∘ h) fun u hu => ?_
        exact ih d (by omega) (closed_wellNamed hresolver t shape u ht hs hu) (hmentioned u hu)
      have hstart : Ahead (r.start t.refKey t.name) r' :=
        hahead.behind (fun _ => decided_start) hdecided
      exact (hcalls _ c q hc hstart).behind (fun _ => decided_finish) hdecided

end WellNamed

/-! ## Runs that end

Answers are not compared here. The one behind may be told that a type is unknown while the one ahead
has known so before; both end, and that is the point. -/

/-- On a registry that is ahead the second computation ends where the first one does, and stays
ahead. The answers may be others. -/
def EndsAhead (resolver : Resolver) {α : Type} (m m' : Resolving α) : Prop :=
  ∀ r r' a s, Ahead r r' → Sound resolver TypeExpr.WellNamed r' → m.run r = some (a, s) →
    ∃ a' s', m'.run r' = some (a', s') ∧ Ahead s s' ∧ Sound resolver TypeExpr.WellNamed s'

namespace EndsAhead

variable {α β : Type}

/-- Two values, which may differ. -/
theorem pure (a a' : α) : EndsAhead resolver (Pure.pure a) (Pure.pure a') := by
  intro r r' b s hahead hr' hrun
  obtain ⟨-, rfl⟩ := run_pure_eq_some.1 hrun
  exact ⟨a', r', rfl, hahead, hr'⟩

/-- What follows may depend on different values, as long as both end. -/
theorem bind {m m' : Resolving α} {f f' : α → Resolving β} (h : EndsAhead resolver m m')
    (hf : ∀ a a', EndsAhead resolver (f a) (f' a')) :
    EndsAhead resolver (m >>= f) (m' >>= f') := by
  intro r r' b s hahead hr' hrun
  obtain ⟨a, q, hm, ha⟩ := run_bind_eq_some.1 hrun
  obtain ⟨a', q', hm', hq, hsound⟩ := h r r' a q hahead hr' hm
  rw [run_bind_of_run hm']
  exact hf a a' q q' b s hq hsound ha

section Calls

variable {reg : Register}

/-- The type in the middle decides, and what the two have collected so far does not. -/
theorem inlineSchema (h : ∀ u ∈ t.core?, EndsAhead resolver (reg u) (reg u))
    (dependencies dependencies' : Keys) :
    EndsAhead resolver (inlineSchema reg t dependencies) (inlineSchema reg t dependencies') := by
  unfold Registry.inlineSchema
  split
  · exact .pure _ _
  · next ws core hpeel =>
    refine .bind (h core (TypeExpr.core?_of_peel_named hpeel)) fun result result' => ?_
    cases result with
    | ok => cases result' <;> exact .pure _ _
    | error e => cases result' <;> exact .pure _ _

theorem nestedSchema (h : ∀ u ∈ t.core?, EndsAhead resolver (reg u) (reg u))
    (dependencies dependencies' : Keys) :
    EndsAhead resolver (nestedSchema reg t dependencies) (nestedSchema reg t dependencies') := by
  refine .bind (inlineSchema h dependencies dependencies') fun found found' => ?_
  cases found with
  | ok x => cases found' <;> exact .pure _ _
  | error e => cases found' <;> exact .pure _ _

/-- The induction is on the fields. -/
theorem addFields {generics : List String} {args : List TypeExpr} {fields : List FieldShape}
    (h : ∀ u ∈ (Shape.struct generics fields).mentioned args, EndsAhead resolver (reg u) (reg u))
    (c c' : Component) :
    EndsAhead resolver (addFields reg generics args fields c)
      (addFields reg generics args fields c') := by
  induction fields generalizing c c' with
  | nil => exact .pure _ _
  | cons f rest ih =>
    refine .bind (nestedSchema (fun u hu => h u (mem_mentioned_cons.2 (.inl hu))) _ _)
      fun _ _ => ih (fun u hu => h u (mem_mentioned_cons.2 (.inr hu))) _ _

/-- A component asks for what it mentions. -/
theorem componentOf {shape : Shape}
    (h : ∀ u ∈ shape.mentioned t.args, EndsAhead resolver (reg u) (reg u)) :
    EndsAhead resolver (componentOf reg t shape) (componentOf reg t shape) := by
  cases shape with
  | struct generics fields => exact addFields h _ _
  | newtype inner =>
    simp only [mem_mentioned_newtype] at h
    exact .bind (nestedSchema h _ _) fun _ _ => .pure _ _
  | enum names => exact .pure _ _

end Calls

end EndsAhead

section WellNamed

variable (hresolver : resolver.WellNamed)

include hresolver

/-- What the registry ahead has met is answered there at once, and the other one does not get past
it. -/
theorem exists_register_of_decided (ht : t.WellNamed) (hahead : Ahead r r')
    (hr' : Sound resolver TypeExpr.WellNamed r') (hdecided : r'.decided t.refKey)
    {result : Except ResolutionError Unit}
    (hrun : (register resolver depth t).run r = some (result, s)) :
    ∃ result', (register resolver depth t).run r' = some (result', r') ∧ Ahead s r' := by
  obtain ⟨⟨result', s'⟩, hrun'⟩ : ∃ x, (register resolver depth t).run r' = some x :=
    register_of_decided hdecided
  -- a decided key is answered from what is known
  have hsame : s' = r' := by
    cases registered_of_run hrun' with
    | known => rfl
    | failed => rfl
    | building => rfl
    | unknown hnew => exact absurd hdecided hnew
    | built _ _ _ _ _ hnew => exact absurd hdecided hnew
  subst hsame
  exact ⟨result', hrun', leads_register_behind hresolver hr' ht hdecided _ _ _ hrun hahead⟩

/-- If neither registry has met the type, both follow it. The induction is on the depth: the calls
inside a component are one level less deep. -/
theorem endsAhead_register (ht : t.WellNamed) :
    EndsAhead resolver (register resolver depth t) (register resolver depth t) := by
  induction depth using Nat.strongRecOn generalizing t with
  | ind depth ih =>
    intro r r' result s hahead hr' hrun
    by_cases hdecided : r'.decided t.refKey
    · obtain ⟨result', hrun', hs⟩ :=
        exists_register_of_decided hresolver ht hahead hr' hdecided hrun
      exact ⟨result', r', hrun', hs, hr'⟩
    · -- that the later registry is valid is known from the run alone
      suffices h : ∃ result' s', (register resolver depth t).run r' = some (result', s') ∧
          Ahead s s' by
        obtain ⟨result', s', hrun', hs⟩ := h
        have done := register_spec (closed_wellNamed hresolver) _ t r' result' s' ht hr' hrun'
        exact ⟨result', s', hrun', hs, done.sound⟩
      -- what the one behind has decided, the one ahead has too
      have hnew : ¬ r.decided t.refKey := mt hahead.decided hdecided
      cases depth with
      | zero =>
        rw [run_register_zero hnew] at hrun
        cases hrun
      | succ d =>
        rw [run_register_of_new hnew] at hrun
        rw [run_register_of_new hdecided]
        have hstart := hahead.start t.refKey t.name
        cases hs : resolver t.name with
        | none =>
          rw [hs] at hrun
          cases hrun
          exact ⟨_, _, rfl, hstart.finish⟩
        | some shape =>
          rw [hs] at hrun
          obtain ⟨⟨c, q⟩, hcalls, hx⟩ := Option.map_eq_some_iff.1 hrun
          cases hx
          -- the parts of the shape are registered with less depth, for which the induction answers
          have hbuilds := EndsAhead.componentOf fun u hu =>
            ih d (Nat.lt_succ_self d) (closed_wellNamed hresolver t shape u ht hs hu)
          have hsound := hr'.start ht hdecided (Resolver.knows_of_eq_some hs)
          obtain ⟨c', q', hcalls', hq, -⟩ := hbuilds _ _ c q hstart hsound hcalls
          dsimp only
          rw [hcalls']
          exact ⟨_, _, rfl, hq.finish⟩

variable {v : Variant} {answer : Except ResolutionError Schema}

/-- Copying into a variant ends always, so it is enough to look at the calls. -/
theorem resolve_ends_ahead (ht : t.WellNamed) (hahead : Ahead r r')
    (hr' : Sound resolver TypeExpr.WellNamed r')
    (hrun : (resolve resolver depth t v).run r = some (answer, s)) :
    ∃ x, (resolve resolver depth t v).run r' = some x := by
  obtain ⟨found, q, hfound, -⟩ := run_bind_eq_some.1 hrun
  have hcalls : ∀ u ∈ t.core?,
      EndsAhead resolver (register resolver depth u) (register resolver depth u) :=
    fun u hu => endsAhead_register hresolver (TypeExpr.wellNamed_of_core? ht hu)
  obtain ⟨found', q', hfound', -, -⟩ :=
    EndsAhead.inlineSchema hcalls ∅ ∅ r r' found q hahead hr' hfound
  rw [resolve, run_bind_of_run hfound']
  cases found' with
  | ok x => exact ⟨_, rfl⟩
  | error e => exact ⟨_, rfl⟩

/-- A type that is resolved on a registry is resolved with the same answer, at the same depth, on
every registry that extends it. -/
theorem resolve_on_later (ht : t.WellNamed) (hr : Valid resolver TypeExpr.WellNamed r)
    (hr' : Valid resolver TypeExpr.WellNamed r') (hext : Extends r r')
    (hrun : (resolve resolver depth t v).run r = some (answer, s)) :
    ∃ s', (resolve resolver depth t v).run r' = some (answer, s') := by
  have hclosed := closed_wellNamed hresolver
  have hcore : ∀ u ∈ t.core?, u.WellNamed := fun u => TypeExpr.wellNamed_of_core? ht
  obtain ⟨⟨answer', s'⟩, hrun'⟩ := resolve_ends_ahead hresolver ht
    (Ahead.of_extends hr.idle hr'.idle hext) hr'.sound hrun
  -- both answers are the one of the resolver alone
  have hsame := ((resolved_of_run hclosed hcore hr hrun).eq_answer hclosed (fun _ => id) hr
    hresolver ht).1
  have hsame' := ((resolved_of_run hclosed hcore hr' hrun').eq_answer hclosed (fun _ => id) hr'
    hresolver ht).1
  exact ⟨s', hsame.trans hsame'.symm ▸ hrun'⟩

end WellNamed

end EndpointDocs.Registry
