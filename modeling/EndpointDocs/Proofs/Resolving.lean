import EndpointDocs.Registry

/-!
# Runs on a registry

A `Resolving` computation runs on a registry and returns an answer with the registry behind it, or
runs out of depth. The lemmas here take a run apart into the runs of its parts, say what holds of
every answer (`Answers`) and of the registry behind it (`Leads`), and compare two computations by
their runs (`Within`): more depth changes nothing for a run that ends.
-/

namespace EndpointDocs.Resolving

variable {α β : Type} {r s : Registry}

theorem run_pure_eq_some {a b : α} :
    (pure a : Resolving α).run r = some (b, s) ↔ a = b ∧ r = s := by
  rw [StateT.run_pure]
  simp only [Option.pure_def, Option.some.injEq, Prod.mk.injEq]

theorem run_bind_eq_some {m : Resolving α} {f : α → Resolving β} {b : β} :
    (m >>= f).run r = some (b, s) ↔
      ∃ a q, m.run r = some (a, q) ∧ (f a).run q = some (b, s) := by
  rw [StateT.run_bind]
  exact Option.bind_eq_some_iff.trans Prod.exists

theorem run_bind_of_run {m : Resolving α} {f : α → Resolving β} {a : α}
    (h : m.run r = some (a, s)) : (m >>= f).run r = (f a).run s := by
  rw [StateT.run_bind, h]
  rfl

/-! ## Answers -/

/-- Every answer of the computation has the property. -/
def Answers (m : Resolving α) (P : α → Prop) : Prop := ∀ r a s, m.run r = some (a, s) → P a

namespace Answers

theorem pure {P : α → Prop} {a : α} (h : P a) : Answers (Pure.pure a) P := by
  intro r b s hrun
  obtain ⟨rfl, -⟩ := run_pure_eq_some.1 hrun
  exact h

theorem bind {m : Resolving α} {f : α → Resolving β} {Q : α → Prop} {P : β → Prop}
    (h : Answers m Q) (hf : ∀ a, Q a → Answers (f a) P) : Answers (m >>= f) P := by
  intro r b s hrun
  obtain ⟨a, q, hm, ha⟩ := run_bind_eq_some.1 hrun
  exact hf a (h r a q hm) q b s ha

end Answers

/-! ## Where runs lead -/

/-- Every run of the computation leads from one registry to a related one. -/
def Leads (R : Registry → Registry → Prop) (m : Resolving α) : Prop :=
  ∀ r a s, m.run r = some (a, s) → R r s

namespace Leads

variable {R : Registry → Registry → Prop}

theorem pure (hrefl : ∀ r, R r r) (a : α) : Leads R (Pure.pure a) := by
  intro r b s hrun
  obtain ⟨-, rfl⟩ := run_pure_eq_some.1 hrun
  exact hrefl r

/-- What follows may rely on its answer being one of the first computation. -/
theorem bind {m : Resolving α} {f : α → Resolving β}
    (htrans : ∀ {r s q}, R r s → R s q → R r q) (h : Leads R m)
    (hf : ∀ a, (∃ r s, m.run r = some (a, s)) → Leads R (f a)) : Leads R (m >>= f) := by
  intro r b s hrun
  obtain ⟨a, q, hm, ha⟩ := run_bind_eq_some.1 hrun
  exact htrans (h r a q hm) (hf a ⟨r, q, hm⟩ q b s ha)

end Leads

/-! ## More depth -/

/-- Every run of `m` that ends is a run of `n` as well. -/
def Within (m n : Resolving α) : Prop := ∀ r x, m.run r = some x → n.run r = some x

namespace Within

theorem refl (m : Resolving α) : Within m m := fun _ _ h => h

theorem bind {m n : Resolving α} {f g : α → Resolving β} (h : Within m n)
    (hf : ∀ a, Within (f a) (g a)) : Within (m >>= f) (n >>= g) := by
  rintro r ⟨b, s⟩ hx
  obtain ⟨a, q, hm, ha⟩ := run_bind_eq_some.1 hx
  exact run_bind_eq_some.2 ⟨a, q, h r (a, q) hm, hf a q (b, s) ha⟩

end Within

end EndpointDocs.Resolving
