import EndpointDocs.Proofs.Registry.Leading
import EndpointDocs.Proofs.Registry.Reference

/-!
# The resolver is asked once

A registry asks the resolver when it starts to build a component, and never for a key that is in its
memo or in progress. So every key that the resolver was asked for is decided, and is not asked for
again: that is what `AskedOnce` says and what every call keeps (`Asking`), at each depth of the
recursion and whatever the names of types are. A call that does not return keeps it as well, on
every registry on which it asks (`Asks`).

    {} ──Called──▶ r ──Called──▶ s     between two calls no key is in progress
                    ╲
                     Asks ──▶ q        inside a call
-/

namespace EndpointDocs.Registry

open Resolving

variable {resolver : Resolver} {depth : Nat} {r s q : Registry} {key name : String}
variable {t : TypeExpr}

/-! ## What was asked -/

/-- The keys that the resolver was asked for, in order. -/
def asked (r : Registry) : List String := r.lookups.map Prod.fst

/-- The resolver was asked for no key twice, and will not be: what it was asked for is decided. -/
structure AskedOnce (r : Registry) : Prop where
  nodup : r.asked.Nodup
  decided : ∀ key ∈ r.asked, r.decided key

theorem AskedOnce.empty : AskedOnce {} where
  nodup := .nil
  decided _ h := nomatch h

theorem asked_start : (r.start key name).asked = r.asked ++ [key] := List.map_append

theorem AskedOnce.start (h : r.AskedOnce) (hnew : ¬ r.decided key) :
    (r.start key name).AskedOnce where
  nodup := by
    rw [asked_start, List.nodup_append_comm]
    exact List.nodup_cons.2 ⟨fun hmem => hnew (h.decided key hmem), h.nodup⟩
  decided k hk := by
    rw [asked_start] at hk
    rw [decided_start]
    rcases List.mem_append.1 hk with hk | hk
    · exact .inr (h.decided k hk)
    · exact .inl (List.mem_singleton.1 hk)

theorem AskedOnce.finish {result : Except ResolutionError Component} (h : q.AskedOnce) :
    (q.finish key result).AskedOnce where
  nodup := h.nodup
  decided k hk := decided_finish.2 (.inr (h.decided k hk))

/-- Other components of variants. -/
theorem AskedOnce.variants (h : r.AskedOnce) (variants : Snapshot) :
    AskedOnce { r with variants := variants } := ⟨h.nodup, h.decided⟩

/-! ## Calls that return -/

/-- The resolver is still asked once, and what is in progress is again what was. -/
structure Asking (r s : Registry) : Prop where
  once : r.AskedOnce → s.AskedOnce
  inProgress : s.inProgress = r.inProgress

namespace Asking

theorem refl (r : Registry) : Asking r r := ⟨id, rfl⟩

theorem trans (h : Asking r s) (h' : Asking s q) : Asking r q :=
  ⟨fun hr => h'.once (h.once hr), h'.inProgress.trans h.inProgress⟩

theorem variants (r : Registry) (variants : Snapshot) : Asking r { r with variants := variants } :=
  ⟨fun hr => hr.variants variants, rfl⟩

/-- The key is decided from the moment at which the resolver is asked for it. -/
theorem respected : Respected fun r s => r.AskedOnce → s.AskedOnce where
  refl _ := id
  trans h h' := fun hr => h' (h hr)
  unknown hnew := fun hr => (hr.start hnew).finish
  built hnew h := fun hr => (h (hr.start hnew)).finish

theorem register (depth : Nat) (t : TypeExpr) :
    Leads Asking (Registry.register resolver depth t) := by
  intro r result s hrun
  exact ⟨respected.register depth t r result s hrun,
    (respected_grows.register depth t r result s hrun).inProgress⟩

theorem resolve (depth : Nat) (t : TypeExpr) (v : Variant) :
    Leads Asking (Registry.resolve resolver depth t v) :=
  leads_resolve .refl .trans (register depth) (fun r _ => .variants r _) t

theorem injectSample (r : Registry) (key : String) (v : Variant) (sample : Json) :
    Asking r (r.injectSample key v sample).2 := by
  have hcopied : Asking r (r.copyIntoVariant v key) := .variants r _
  unfold Registry.injectSample
  dsimp only
  split
  · exact hcopied.trans (.variants _ _)
  · exact hcopied

end Asking

/-- A single call, with any snapshots at hand, leads from `r` to `s`. -/
def Called (resolver : Resolver) (r s : Registry) : Prop :=
  ∃ depth call answer, ∃ before after : List Snapshot,
    ({ registry := r, snapshots := before } : Session).perform resolver depth call =
      some (answer, { registry := s, snapshots := after })

/-- Calls lead from `r` to `s`. -/
abbrev CalledOn (resolver : Resolver) : Registry → Registry → Prop :=
  Relation.ReflTransGen (Called resolver)

theorem Called.asking (h : Called resolver r s) : Asking r s := by
  obtain ⟨depth, call, answer, before, after, hcall⟩ := h
  cases call with
  | resolve t v =>
    -- only resolving runs the loop that asks
    obtain ⟨⟨found, q⟩, hrun, hreturn⟩ := Option.bind_eq_some_iff.1 hcall
    cases hreturn
    exact .resolve depth t v r found s hrun
  | inject key v sample =>
    cases hcall
    exact .injectSample r key v sample
  -- the other calls leave the registry as it is, or put back what was saved
  | lookup key v =>
    cases hcall
    exact .refl r
  | flush v target =>
    cases hcall
    exact .refl r
  | snapshot =>
    cases hcall
    exact .refl r
  | restore place =>
    obtain ⟨saved, -, hreturn⟩ := Option.bind_eq_some_iff.1 hcall
    cases hreturn
    exact .variants r saved

/-- The induction is on the calls. -/
theorem CalledOn.asking (h : CalledOn resolver r s) : Asking r s := by
  induction h with
  | refl => exact .refl r
  | tail _ hlast ih => exact ih.trans hlast.asking

/-- The calls of a session lead to its registry. -/
theorem calledOn_of_run {calls : List Call} {answers : List Answer} {session last : Session}
    (h : session.run resolver depth calls = some (answers, last)) :
    CalledOn resolver session.registry last.registry := by
  induction calls generalizing session answers with
  | nil =>
    cases h
    exact .refl
  | cons call rest ih =>
    obtain ⟨⟨answer, next⟩, hcall, h⟩ := Option.bind_eq_some_iff.1 h
    obtain ⟨⟨later, last'⟩, hrest, hreturn⟩ := Option.bind_eq_some_iff.1 h
    cases hreturn
    exact .head ⟨depth, call, answer, _, _, hcall⟩ (ih hrest)

/-! ## Inside a call -/

/-- A call of `register` for `t` on `r` comes by `s` and has just asked the resolver there. -/
inductive Asks (resolver : Resolver) : TypeExpr → Registry → Registry → Prop where
  | here {t : TypeExpr} {r : Registry} (hnew : ¬ r.decided t.refKey) :
      Asks resolver t r (r.start t.refKey t.name)
  /-- For the type of a field, when the fields before it are done. -/
  | field {t core : TypeExpr} {r q s : Registry} {generics : List String}
      {before after : List FieldShape} {f : FieldShape} {depth : Nat} {c : Component}
      (hnew : ¬ r.decided t.refKey)
      (hs : resolver t.name = some (.struct generics (before ++ f :: after)))
      (hbefore : (addFields (register resolver depth) generics t.args before ⟨.object, ∅⟩).run
        (r.start t.refKey t.name) = some (c, q))
      (hcore : core ∈ (f.type.substitute generics t.args).core?)
      (h : Asks resolver core q s) : Asks resolver t r s
  | newtype {t inner core : TypeExpr} {r s : Registry} (hnew : ¬ r.decided t.refKey)
      (hs : resolver t.name = some (.newtype inner)) (hcore : core ∈ inner.core?)
      (h : Asks resolver core (r.start t.refKey t.name) s) : Asks resolver t r s

/-- The induction is on the nesting of calls; whether they return is not asked. -/
theorem Asks.once (h : Asks resolver t r s) (hr : r.AskedOnce) : s.AskedOnce := by
  induction h with
  | here hnew => exact hr.start hnew
  | field hnew _ hbefore _ _ ih =>
    have hfields :=
      leads_addFields Asking.refl Asking.trans (fun u _ => Asking.register _ u) _ _ _ _ hbefore
    exact ih (hfields.once (hr.start hnew))
  | newtype hnew _ _ _ ih => exact ih (hr.start hnew)

/-! ## Calls that return ask in this way

For a run that ends, the log tells each time at which the resolver was asked, and `Asks` has all of
them.
-/

/-- Each entry that a run adds to the log was the last one on one of the given registries. -/
def Logs {α : Type} (m : Resolving α) (asks : Registry → Registry → Prop) : Prop :=
  ∀ r a s, m.run r = some (a, s) → ∀ log entry, log ++ [entry] <+: s.lookups →
    log ++ [entry] <+: r.lookups ∨ ∃ q, asks r q ∧ q.lookups = log ++ [entry]

namespace Logs

variable {α β : Type} {m : Resolving α} {asks : Registry → Registry → Prop}

theorem pure (a : α) : Logs (Pure.pure a : Resolving α) asks := by
  intro r b s hrun log entry hlog
  obtain ⟨-, rfl⟩ := run_pure_eq_some.1 hrun
  exact .inl hlog

theorem bind {f : α → Resolving β} (h : Logs m asks)
    (hf : ∀ a, Logs (f a) fun q s => ∀ r, m.run r = some (a, q) → asks r s) :
    Logs (m >>= f) asks := by
  intro r b s hrun log entry hlog
  obtain ⟨a, q, hm, ha⟩ := run_bind_eq_some.1 hrun
  rcases hf a q b s ha log entry hlog with hearlier | ⟨q', hasks, hq'⟩
  · exact h r a q hm log entry hearlier
  · exact .inr ⟨q', hasks r hm, hq'⟩

theorem weaken {asks' : Registry → Registry → Prop} (h : Logs m asks)
    (hasks : ∀ r q, asks r q → asks' r q) : Logs m asks' := by
  intro r a s hrun log entry hlog
  refine (h r a s hrun log entry hlog).imp_right ?_
  rintro ⟨q, hq, hlast⟩
  exact ⟨q, hasks r q hq, hlast⟩

section Register

variable {reg : Register} (h : ∀ u, Logs (reg u) (Asks resolver u))

include h

theorem nestedSchema (t : TypeExpr) (dependencies : Keys) :
    Logs (Registry.nestedSchema reg t dependencies)
      fun r q => ∃ core ∈ t.core?, Asks resolver core r q := by
  refine .bind ?_ fun found => ?_
  · unfold inlineSchema
    rcases hpeel : t.peel with ⟨ws, schema | core⟩
    · exact .pure _
    · refine .bind ((h core).weaken fun r q hasks => ?_) fun result => ?_
      · exact ⟨core, TypeExpr.core?_of_peel_named hpeel, hasks⟩
      · cases result with
        | ok => exact .pure _
        | error e => exact .pure _
  · cases found with
    | ok x => exact .pure _
    | error e => exact .pure _

/-- The induction is on the fields; each is followed when those before it are done. -/
theorem addFields (generics : List String) (args : List TypeExpr) (fields : List FieldShape)
    (c : Component) :
    Logs (Registry.addFields reg generics args fields c) fun r s =>
      ∃ before f after c' q, fields = before ++ f :: after ∧
        (Registry.addFields reg generics args before c).run r = some (c', q) ∧
        ∃ core ∈ (f.type.substitute generics args).core?, Asks resolver core q s := by
  induction fields generalizing c with
  | nil => exact .pure _
  | cons f rest ih =>
    refine .bind ((Logs.nestedSchema h _ _).weaken fun r s hasks => ?_) fun found =>
      (ih _).weaken fun q s hasks r hfirst => ?_
    · exact ⟨[], f, rest, c, r, rfl, rfl, hasks⟩
    · obtain ⟨before, f', after, c', q', rfl, hbefore, hasks⟩ := hasks
      exact ⟨f :: before, f', after, c', q', rfl, run_bind_eq_some.2 ⟨found, q, hfirst, hbefore⟩,
        hasks⟩

end Register

end Logs

/-- A call that starts to build a component asks for it first. -/
theorem Asks.of_start (hnew : ¬ r.decided t.refKey) {log : List (String × String)}
    {entry : String × String}
    (h : log ++ [entry] <+: (r.start t.refKey t.name).lookups) :
    log ++ [entry] <+: r.lookups ∨ ∃ q, Asks resolver t r q ∧ q.lookups = log ++ [entry] := by
  rcases List.prefix_concat_iff.1 h with hlast | hearlier
  · exact .inr ⟨_, .here hnew, hlast.symm⟩
  · exact .inl hearlier

theorem logs_register (depth : Nat) (t : TypeExpr) :
    Logs (register resolver depth t) (Asks resolver t) := by
  induction depth using Nat.strongRecOn generalizing t with
  | ind depth ih =>
    intro r result s hrun log entry hlog
    cases registered_of_run hrun with
    | known => exact .inl hlog
    | failed => exact .inl hlog
    | building => exact .inl hlog
    | unknown hnew => exact Asks.of_start hnew hlog
    -- a lookup is that of the type itself, or it is made while a part of its shape is registered
    | built d shape c q hd hnew hs hc =>
      have hparts : ∀ u, Logs (register resolver d u) (Asks resolver u) := ih d (by omega)
      cases shape with
      | struct generics fields =>
        rcases Logs.addFields hparts _ _ _ _ _ _ _ hc log entry hlog with
          hearlier | ⟨q', hasks, hq'⟩
        · exact Asks.of_start hnew hearlier
        · obtain ⟨before, f, after, c', q'', rfl, hbefore, core, hcore, hasks⟩ := hasks
          exact .inr ⟨q', .field hnew hs hbefore hcore hasks, hq'⟩
      | newtype inner =>
        obtain ⟨x, q', hnested, hreturn⟩ := run_bind_eq_some.1 hc
        cases hreturn
        rcases Logs.nestedSchema hparts _ _ _ _ _ hnested log entry hlog with
          hearlier | ⟨q', hasks, hq'⟩
        · exact Asks.of_start hnew hearlier
        · obtain ⟨core, hcore, hasks⟩ := hasks
          exact .inr ⟨q', .newtype hnew hs hcore hasks, hq'⟩
      | enum names =>
        cases hc
        exact Asks.of_start hnew hlog

end EndpointDocs.Registry
