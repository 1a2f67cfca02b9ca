import EndpointDocs.TypeExpr
import Mathlib.Data.List.TakeWhile

/-!
# The key of a type names the type

A point both opens and closes a list of arguments in a key, and the closing points at its end are
dropped, so a key does not say by itself where a type ends. It does once the names hold neither of
the two characters that structure it: an opening point is followed by a name, a closing one by a
point, a hyphen or nothing (`MayFollow`). Main statement: `refKey_injective`.
-/

namespace EndpointDocs

/-- A name without the characters that structure a key. -/
def PlainName (name : String) : Prop :=
  name.toList ≠ [] ∧ '.' ∉ name.toList ∧ '-' ∉ name.toList

instance (name : String) : Decidable (PlainName name) :=
  inferInstanceAs (Decidable (_ ∧ _ ∧ _))

namespace TypeExpr

/-! ## Well-named types

Names come from identifiers, so in practice every type is well-named. It is a property of the whole
tree, and decidable, so that a concrete type is shown to have it by evaluation. -/

mutual

/-- Every name in the type is plain. -/
def WellNamed : TypeExpr → Prop
  | ⟨name, args⟩ => PlainName name ∧ AllWellNamed args

def AllWellNamed : List TypeExpr → Prop
  | [] => True
  | a :: as => WellNamed a ∧ AllWellNamed as

end

mutual

/-- By recursion on the tree, as the property is. -/
def decideWellNamed : (t : TypeExpr) → Decidable t.WellNamed
  | ⟨name, args⟩ =>
    have := decideAllWellNamed args
    inferInstanceAs (Decidable (PlainName name ∧ AllWellNamed args))

def decideAllWellNamed : (ts : List TypeExpr) → Decidable (AllWellNamed ts)
  | [] => inferInstanceAs (Decidable True)
  | t :: ts =>
    have := decideWellNamed t
    have := decideAllWellNamed ts
    inferInstanceAs (Decidable (WellNamed t ∧ AllWellNamed ts))

end

instance : DecidablePred WellNamed := decideWellNamed

/-- Each of the types is well-named. -/
theorem allWellNamed_iff {ts : List TypeExpr} : AllWellNamed ts ↔ ∀ t ∈ ts, t.WellNamed := by
  induction ts with
  | nil => simp [AllWellNamed]
  | cons t ts ih => simp [AllWellNamed, ih]

/-- The name is plain, and the arguments are well-named. -/
theorem wellNamed_iff {t : TypeExpr} :
    t.WellNamed ↔ PlainName t.name ∧ ∀ a ∈ t.args, a.WellNamed := by
  cases t
  rw [WellNamed, allWellNamed_iff]

/-- What stands for a missing argument has a plain name. -/
theorem wellNamed_anything : anything.WellNamed := by
  rw [anything, WellNamed]
  exact ⟨by decide, trivial⟩

/-- A name is left as it is, or replaced by an argument. -/
theorem wellNamed_argumentFor {name : String} (hn : PlainName name) (params : List String)
    {args : List TypeExpr} (ha : ∀ a ∈ args, a.WellNamed) :
    (argumentFor name params args).WellNamed := by
  induction params generalizing args with
  | nil => exact ⟨hn, trivial⟩
  | cons p ps ih =>
    rw [argumentFor]
    split
    · cases args with
      | nil => exact wellNamed_anything
      | cons a as => exact ha a List.mem_cons_self
    · exact ih fun a h => ha a (List.mem_of_mem_tail h)

mutual

/-- Putting well-named arguments in the place of parameters makes no other names. -/
theorem wellNamed_substitute {params : List String} {args : List TypeExpr}
    (ha : ∀ a ∈ args, a.WellNamed) :
    (t : TypeExpr) → t.WellNamed → (substitute params args t).WellNamed
  | ⟨_, []⟩, ht => by
    rw [substitute]
    exact wellNamed_argumentFor ht.1 params ha
  | ⟨_, a :: as⟩, ht => by
    rw [substitute]
    exact ⟨ht.1, wellNamed_substitute ha a ht.2.1, allWellNamed_substituteAll ha as ht.2.2⟩

theorem allWellNamed_substituteAll {params : List String} {args : List TypeExpr}
    (ha : ∀ a ∈ args, a.WellNamed) :
    (ts : List TypeExpr) → AllWellNamed ts → AllWellNamed (substituteAll params args ts)
  | [], _ => by
    rw [substituteAll]
    trivial
  | t :: ts, h => by
    rw [substituteAll]
    exact ⟨wellNamed_substitute ha t h.1, allWellNamed_substituteAll ha ts h.2⟩

end

/-! ## Reading a key back

The proof reads two equal keys side by side. Where a name ends, the next character tells whether
arguments follow: behind an opening point stands a name, and no name stands behind what may follow a
complete type. -/

/-- A character that ends a name. -/
def EndsName (c : Char) : Prop := c = '.' ∨ c = '-'

/-- What may stand behind a complete type in a key: nothing, a hyphen, or a closing point. -/
def MayFollow : List Char → Prop
  | [] => True
  | c :: rest => c = '-' ∨ (c = '.' ∧ ∀ d ∈ rest.head?, EndsName d)

/-- What may follow a type ends its name, whether the type has arguments or not. -/
theorem MayFollow.endsName {u : List Char} (hu : MayFollow u) : ∀ c ∈ u.head?, EndsName c := by
  intro c hc
  cases u with
  | nil => cases hc
  | cons d rest =>
    cases hc
    rcases hu with rfl | ⟨rfl, -⟩
    · exact .inr rfl
    · exact .inl rfl

/-- Any number of closing points may follow. -/
theorem mayFollow_dots (n : Nat) : MayFollow (List.replicate n '.') := by
  induction n with
  | zero => trivial
  | succ n ih => exact .inr ⟨rfl, ih.endsName⟩

/-- Behind an argument comes a hyphen, or the point that closes the list. -/
theorem mayFollow_keyRest {u : List Char} (hu : MayFollow u) (as : List TypeExpr) :
    MayFollow (keyRest as ++ u) := by
  cases as with
  | nil => exact .inr ⟨rfl, hu.endsName⟩
  | cons a as => exact .inl rfl

/-- Two texts that both start with a plain name and go on behind it start with the same name. -/
theorem names_eq {n m u w : List Char} (hn : '.' ∉ n ∧ '-' ∉ n) (hm : '.' ∉ m ∧ '-' ∉ m)
    (hu : ∀ c ∈ u.head?, EndsName c) (hw : ∀ c ∈ w.head?, EndsName c) (h : n ++ u = m ++ w) :
    n = m ∧ u = w := by
  induction n generalizing m with
  | nil =>
    cases m with
    | nil => exact ⟨rfl, h⟩
    | cons c m =>
      -- what ends the shorter name would stand inside the longer one
      subst h
      rcases hu c rfl with rfl | rfl
      · exact absurd List.mem_cons_self hm.1
      · exact absurd List.mem_cons_self hm.2
  | cons c n ih =>
    cases m with
    | nil =>
      subst h
      rcases hw c rfl with rfl | rfl
      · exact absurd List.mem_cons_self hn.1
      · exact absurd List.mem_cons_self hn.2
    | cons d m =>
      obtain ⟨rfl, hrest⟩ := List.cons.inj h
      have hn' : '.' ∉ n ∧ '-' ∉ n := ⟨fun hc => hn.1 (.tail _ hc), fun hc => hn.2 (.tail _ hc)⟩
      have hm' : '.' ∉ m ∧ '-' ∉ m := ⟨fun hc => hm.1 (.tail _ hc), fun hc => hm.2 (.tail _ hc)⟩
      obtain ⟨rfl, rfl⟩ := ih hn' hm' hrest
      exact ⟨rfl, rfl⟩

/-- No complete type is followed by what opens the arguments of one. -/
theorem not_mayFollow_open {t : TypeExpr} (ht : t.WellNamed) (rest : List Char) :
    ¬ MayFollow ('.' :: (keyChars t ++ rest)) := by
  obtain ⟨⟨hne, hdot, hhyphen⟩, -⟩ := wellNamed_iff.1 ht
  obtain ⟨name, args⟩ := t
  obtain ⟨c, cs, hc⟩ := List.exists_cons_of_ne_nil hne
  simp only at hdot hhyphen hc
  rw [hc] at hdot hhyphen
  have hstart : ∃ ds, keyChars ⟨name, args⟩ ++ rest = c :: ds := by
    cases args <;> simp [keyChars, hc]
  obtain ⟨ds, hds⟩ := hstart
  rw [hds]
  rintro (h | ⟨-, h⟩)
  · exact absurd h (by decide)
  · rcases h c rfl with rfl | rfl
    · exact hdot List.mem_cons_self
    · exact hhyphen List.mem_cons_self

mutual

/-- A key with all of its closing points says where the type ends. -/
theorem keyChars_append_inj {u w : List Char} (hu : MayFollow u) (hw : MayFollow w) :
    (s t : TypeExpr) → s.WellNamed → t.WellNamed → keyChars s ++ u = keyChars t ++ w →
      s = t ∧ u = w
  | ⟨n, []⟩, ⟨m, []⟩, hs, ht, h => by
    obtain ⟨hnm, rfl⟩ := names_eq hs.1.2 ht.1.2 hu.endsName hw.endsName h
    exact ⟨by rw [String.toList_inj.1 hnm], rfl⟩
  | ⟨n, []⟩, ⟨m, b :: bs⟩, hs, ht, h => by
    rw [keyChars, keyChars, List.append_assoc] at h
    -- the key of `s` ends where that of `t` goes on with an argument
    have hopen : ∀ c ∈ ('.' :: (keyChars b ++ keyRest bs) ++ w).head?, EndsName c :=
      fun c hc => .inl (Option.some.inj hc).symm
    obtain ⟨-, rfl⟩ := names_eq hs.1.2 ht.1.2 hu.endsName hopen h
    rw [List.cons_append, List.append_assoc] at hu
    exact absurd hu (not_mayFollow_open ht.2.1 _)
  | ⟨n, a :: as⟩, ⟨m, []⟩, hs, ht, h => by
    rw [keyChars, keyChars, List.append_assoc] at h
    have hopen : ∀ c ∈ ('.' :: (keyChars a ++ keyRest as) ++ u).head?, EndsName c :=
      fun c hc => .inl (Option.some.inj hc).symm
    obtain ⟨-, rfl⟩ := names_eq hs.1.2 ht.1.2 hopen hw.endsName h
    rw [List.cons_append, List.append_assoc] at hw
    exact absurd hw (not_mayFollow_open hs.2.1 _)
  | ⟨n, a :: as⟩, ⟨m, b :: bs⟩, hs, ht, h => by
    rw [keyChars, keyChars, List.append_assoc, List.append_assoc, List.cons_append,
      List.cons_append] at h
    have hopen : ∀ (x : List Char), ∀ c ∈ ('.' :: x).head?, EndsName c :=
      fun x c hc => .inl (Option.some.inj hc).symm
    obtain ⟨hnm, hargs⟩ := names_eq hs.1.2 ht.1.2 (hopen _) (hopen _) h
    rw [List.append_assoc, List.append_assoc] at hargs
    obtain ⟨rfl, hrest⟩ := keyChars_append_inj (mayFollow_keyRest hu as) (mayFollow_keyRest hw bs)
      a b hs.2.1 ht.2.1 (List.cons.inj hargs).2
    obtain ⟨rfl, rfl⟩ := keyRest_append_inj hu hw as bs hs.2.2 ht.2.2 hrest
    exact ⟨by rw [String.toList_inj.1 hnm], rfl⟩

theorem keyRest_append_inj {u w : List Char} (hu : MayFollow u) (hw : MayFollow w) :
    (as bs : List TypeExpr) → AllWellNamed as → AllWellNamed bs →
      keyRest as ++ u = keyRest bs ++ w → as = bs ∧ u = w
  | [], [], _, _, h => ⟨rfl, (List.cons.inj h).2⟩
  | [], b :: bs, _, _, h => absurd (List.cons.inj h).1 (by decide)
  | a :: as, [], _, _, h => absurd (List.cons.inj h).1 (by decide)
  | a :: as, b :: bs, ha, hb, h => by
    rw [keyRest, keyRest, List.cons_append, List.cons_append, List.append_assoc,
      List.append_assoc] at h
    obtain ⟨rfl, hrest⟩ := keyChars_append_inj (mayFollow_keyRest hu as) (mayFollow_keyRest hw bs)
      a b ha.1 hb.1 (List.cons.inj h).2
    obtain ⟨rfl, rfl⟩ := keyRest_append_inj hu hw as bs ha.2 hb.2 hrest
    exact ⟨rfl, rfl⟩

end

/-! ## The dropped points

Two keys that are equal may have lost different numbers of points. Each is given the points of the
other, which makes them equal with their points, and `keyChars_append_inj` allows for what is
behind. -/

/-- The key with its closing points is the key and some points. -/
theorem exists_keyChars_eq (t : TypeExpr) :
    ∃ n, t.keyChars = t.refKey.toList ++ List.replicate n '.' := by
  refine ⟨(t.keyChars.reverse.takeWhile (· == '.')).length, ?_⟩
  have hdots : t.keyChars.reverse.takeWhile (· == '.') =
      List.replicate (t.keyChars.reverse.takeWhile (· == '.')).length '.' := by
    refine List.eq_replicate_of_mem fun c hc => ?_
    simpa using List.mem_takeWhile_imp hc
  have hsplit := List.takeWhile_append_dropWhile (p := (· == '.')) (l := t.keyChars.reverse)
  have hrev := congrArg List.reverse hsplit
  rw [List.reverse_append, List.reverse_reverse, hdots, List.reverse_replicate] at hrev
  rw [refKey, String.toList_ofList, hrev]

/-- Well-named types with one key are the same type. -/
theorem refKey_injective {s t : TypeExpr} (hs : s.WellNamed) (ht : t.WellNamed)
    (h : s.refKey = t.refKey) : s = t := by
  obtain ⟨m, hm⟩ := exists_keyChars_eq s
  obtain ⟨n, hn⟩ := exists_keyChars_eq t
  have hfull : s.keyChars ++ List.replicate n '.' = t.keyChars ++ List.replicate m '.' := by
    rw [hm, hn, h, List.append_assoc, List.append_assoc, List.replicate_append_replicate,
      List.replicate_append_replicate, Nat.add_comm]
  exact (keyChars_append_inj (mayFollow_dots n) (mayFollow_dots m) s t hs ht hfull).1

end TypeExpr

end EndpointDocs
