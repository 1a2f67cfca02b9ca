import EndpointDocs.Source.Reader

/-!
# Repeated parts

What one round of a repetition does (`nextItem_cases`, and the lemmas on the runs of its cases), and
what a repetition makes of its rounds.
-/

namespace EndpointDocs.Source

variable {α : Type} {ts us vs : List Token}

/-! ### Runs of the parts

Proofs about readers follow a run with these equations, from the tokens before to the tokens behind.
-/

@[simp]
theorem run_failure (ts : List Token) : (failure : Reader α).run ts = none := rfl

/-- A reader that takes all tokens. -/
theorem readAll?_eq_some {r : Reader α} {a : α} (h : r.run ts = some (a, [])) :
    readAll? r ts = some a := by
  have h' : r ts = some (a, []) := h
  rw [readAll?, h']

/-- The body of a group is read to its end, whatever follows the group. -/
theorem run_group {r : Reader α} {d : Delimiter} {body : List Token} {a : α}
    (h : r.run body = some (a, [])) : (group d r).run (.group d body :: ts) = some (a, ts) := by
  simp [group, groupBody, readAll?_eq_some h]

/-- One round of reading items between separators. -/
def nextItem (separator : String) (stop : List Token → Bool) (r : Reader α) :
    Reader (Option α) := do
  if stop (← get) then return none
  let a ← r
  if !stop (← get) then mark separator
  return some a

/-- Reading items is repeating rounds. -/
theorem separatedUntil_eq (separator : String) (stop : List Token → Bool) (r : Reader α) :
    separatedUntil separator stop r = repeated (nextItem separator stop r) := rfl

/-! ### Rounds

The fuel of a repetition is more than the number of tokens, so it lasts as long as each round takes
one of them at least. -/

theorem run_repeatUpTo_stop {step : Reader (Option α)} {n : Nat}
    (h : step.run ts = some (none, us)) : (repeatUpTo step (n + 1)).run ts = some ([], us) := by
  simp [repeatUpTo, h]

/-- A round with a result, and the rounds behind it. -/
theorem run_repeatUpTo_more {step : Reader (Option α)} {n : Nat} {a : α} {l : List α}
    (h : step.run ts = some (some a, us)) (hrest : (repeatUpTo step n).run us = some (l, vs)) :
    (repeatUpTo step (n + 1)).run ts = some (a :: l, vs) := by
  simp [repeatUpTo, h, hrest]

theorem run_repeated_of {step : Reader (Option α)} {l : List α}
    (h : (repeatUpTo step (ts.length + 1)).run ts = some (l, us)) :
    (repeated step).run ts = some (l, us) := h

section nextItem

variable (separator : String) {stop : List Token → Bool} {r : Reader α} {a : α}

/-- Nothing is left to read. -/
theorem run_nextItem_stop (h : stop ts = true) :
    (nextItem separator stop r).run ts = some (none, ts) := by
  simp [nextItem, h]

/-- The last item needs no separator behind it. -/
theorem run_nextItem_last (h : stop ts = false) (hr : r.run ts = some (a, us))
    (hstop : stop us = true) : (nextItem separator stop r).run ts = some (some a, us) := by
  simp [nextItem, h, hr, hstop]

/-- An item with a separator behind it. -/
theorem run_nextItem_more (h : stop ts = false) (hr : r.run ts = some (a, us))
    (hstop : stop us = false) (hmark : atMark separator us = true) :
    (nextItem separator stop r).run ts = some (some a, us.drop separator.length) := by
  simp [nextItem, h, hr, hstop, mark, expect, hmark, skip]

variable {separator} {o : Option α}

/-- There is no other way for a round to succeed. -/
theorem nextItem_cases (h : (nextItem separator stop r).run ts = some (o, us)) :
    (stop ts = true ∧ o = none ∧ us = ts) ∨
      ∃ a vs, stop ts = false ∧ r.run ts = some (a, vs) ∧ o = some a ∧
        ((stop vs = true ∧ us = vs) ∨
          stop vs = false ∧ atMark separator vs = true ∧ us = vs.drop separator.length) := by
  cases hstop : stop ts with
  | true =>
    rw [run_nextItem_stop separator hstop] at h
    cases h
    exact .inl ⟨rfl, rfl, rfl⟩
  | false =>
    cases hr : r.run ts with
    | none => simp [nextItem, hstop, hr] at h
    | some result =>
      obtain ⟨a, vs⟩ := result
      refine .inr ⟨a, vs, rfl, rfl, ?_⟩
      -- behind the item either the end or a separator stands
      cases hlast : stop vs with
      | true =>
        rw [run_nextItem_last separator hstop hr hlast] at h
        cases h
        exact ⟨rfl, .inl ⟨rfl, rfl⟩⟩
      | false =>
        cases hmark : atMark separator vs with
        | false => simp [nextItem, hstop, hr, hlast, mark, expect, hmark] at h
        | true =>
          rw [run_nextItem_more separator hstop hr hlast hmark] at h
          cases h
          exact ⟨rfl, .inr ⟨rfl, rfl, rfl⟩⟩

end nextItem

end EndpointDocs.Source
