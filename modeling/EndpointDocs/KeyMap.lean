/-!
# Maps in ascending key order

Documents list their paths, components, responses and variants in ascending key order. A
`KeyMap κ α` is a list of entries whose keys strictly ascend, so the order is part of the type.

The operations on bare entry lists (`Entries.find?`, `Entries.insert`, …) serve the places where a
map nests inside a recursive type; `KeyMap` packs them with the proof that the keys ascend. The
view of a map is its lookup function, and `get?_alter` says what an update does to it.
-/

namespace EndpointDocs

/-- Keys whose `<` is a strict total order. -/
class OrderedKey (κ : Type) [LT κ] : Prop where
  irrefl : ∀ a : κ, ¬ a < a
  trans : ∀ {a b c : κ}, a < b → b < c → a < c
  trichotomy : ∀ a b : κ, a < b ∨ a = b ∨ b < a

theorem OrderedKey.eq_of_not_lt {κ : Type} [LT κ] [OrderedKey κ] {a b : κ} (h : ¬ a < b)
    (h' : ¬ b < a) : a = b :=
  ((OrderedKey.trichotomy a b).resolve_left h).resolve_right h'

instance : OrderedKey String where
  irrefl := String.lt_irrefl
  trans := String.lt_trans
  trichotomy := Std.lt_trichotomy

/-- The keys of the entries strictly ascend. -/
def Ascending {κ α : Type} [LT κ] (entries : List (κ × α)) : Prop :=
  entries.Pairwise (fun a b => a.1 < b.1)

namespace Entries

variable {κ α β : Type}

/-- The value of the first entry with the key. -/
def find? [DecidableEq κ] (key : κ) : List (κ × α) → Option α
  | [] => none
  | (k, v) :: rest => if k = key then some v else find? key rest

/-- The entries of other keys. -/
def erase [DecidableEq κ] (key : κ) (entries : List (κ × α)) : List (κ × α) :=
  entries.filter (fun p => p.1 ≠ key)

def mapValues (f : κ → α → β) (entries : List (κ × α)) : List (κ × β) :=
  entries.map (fun p => (p.1, f p.1 p.2))

section Update

variable [LT κ] [DecidableLT κ]

/-- Put `key` at its place, with the value that `change` makes of the one already there. -/
def alter (key : κ) (change : Option α → α) : List (κ × α) → List (κ × α)
  | [] => [(key, change none)]
  | (k, v) :: rest =>
    if key < k then (key, change none) :: (k, v) :: rest
    else if k < key then (k, v) :: alter key change rest
    else (key, change (some v)) :: rest

/-- Put the value at the place of the key, whatever was there. -/
def insert (key : κ) (value : α) (entries : List (κ × α)) : List (κ × α) :=
  alter key (fun _ => value) entries

/-- The entries in ascending order, a later value replacing an earlier one of the same key. -/
def ofList (pairs : List (κ × α)) : List (κ × α) :=
  pairs.foldl (fun entries p => insert p.1 p.2 entries) []

/-- Every key of `alter key change entries` is `key` or was there before. -/
theorem key_of_mem_alter {key : κ} {change : Option α → α} {entries : List (κ × α)} {p : κ × α}
    (h : p ∈ alter key change entries) : p.1 = key ∨ ∃ q ∈ entries, q.1 = p.1 := by
  induction entries with
  | nil => simp only [alter, List.mem_singleton] at h; simp [h]
  | cons e rest ih =>
    obtain ⟨k, v⟩ := e
    rw [alter] at h
    split at h
    · -- the first entry has the key and is replaced
      rcases List.mem_cons.1 h with rfl | h
      · exact .inl rfl
      · exact .inr ⟨p, h, rfl⟩
    · split at h
      · -- the key belongs further behind, or in front of this entry
        rcases List.mem_cons.1 h with rfl | h
        · exact .inr ⟨(k, v), by simp, rfl⟩
        · rcases ih h with h | ⟨q, hq, hk⟩
          · exact .inl h
          · exact .inr ⟨q, List.mem_cons_of_mem _ hq, hk⟩
      · rcases List.mem_cons.1 h with rfl | h
        · exact .inl rfl
        · exact .inr ⟨p, List.mem_cons_of_mem _ h, rfl⟩

end Update

/-! ### The keys stay ascending

Each operation keeps the order. The one that needs an argument is `alter`, which puts a key in front
of the first larger one. -/

theorem ascending_erase [LT κ] [DecidableEq κ] {key : κ} {entries : List (κ × α)}
    (h : Ascending entries) : Ascending (erase key entries) :=
  List.Pairwise.filter _ h

theorem ascending_mapValues [LT κ] {f : κ → α → β} {entries : List (κ × α)}
    (h : Ascending entries) : Ascending (mapValues f entries) :=
  List.pairwise_map.2 h

/-- A key below every entry has no value. -/
theorem find?_eq_none_of_lt [LT κ] [OrderedKey κ] [DecidableEq κ] {key : κ} {entries : List (κ × α)}
    (h : ∀ p ∈ entries, key < p.1) : find? key entries = none := by
  induction entries with
  | nil => rfl
  | cons e rest ih =>
    obtain ⟨k, v⟩ := e
    have hk : k ≠ key := fun he => OrderedKey.irrefl key (by simpa [he] using h (k, v) (by simp))
    rw [find?, if_neg hk, ih fun p hp => h p (List.mem_cons_of_mem _ hp)]

section Laws

variable [LT κ] [DecidableLT κ] [OrderedKey κ]

/-- The induction is on the entries in front of the place of the key. -/
theorem ascending_alter {key : κ} {change : Option α → α} {entries : List (κ × α)}
    (h : Ascending entries) : Ascending (alter key change entries) := by
  induction entries with
  | nil => simp [alter, Ascending]
  | cons e rest ih =>
    obtain ⟨k, v⟩ := e
    obtain ⟨hk, hrest⟩ := List.pairwise_cons.1 h
    rw [alter]
    split
    · -- the new entry stands in front of all
      next hlt =>
      refine List.pairwise_cons.2 ⟨?_, h⟩
      intro q hq
      rcases List.mem_cons.1 hq with rfl | hq
      · exact hlt
      · exact OrderedKey.trans hlt (hk q hq)
    · split
      · -- the entry stays in front, as the key that may be new is behind it
        next hlt =>
        refine List.pairwise_cons.2 ⟨?_, ih hrest⟩
        intro q hq
        rcases key_of_mem_alter hq with hq | ⟨q', hq', he⟩
        · simpa [hq] using hlt
        · simpa [← he] using hk q' hq'
      · next h₁ h₂ =>
        have he : key = k := OrderedKey.eq_of_not_lt h₁ h₂
        exact List.pairwise_cons.2 ⟨fun q hq => he ▸ hk q hq, hrest⟩

/-- The induction is on the pairs. -/
theorem ascending_ofList (pairs : List (κ × α)) : Ascending (ofList pairs) := by
  suffices h : ∀ acc : List (κ × α), Ascending acc →
      Ascending (pairs.foldl (fun entries p => insert p.1 p.2 entries) acc) from
    h [] List.Pairwise.nil
  induction pairs with
  | nil => exact fun _ h => h
  | cons p rest ih => exact fun _ h => ih _ (ascending_alter h)

/-- An update changes the value of its own key and of no other. -/
theorem find?_alter [DecidableEq κ] {key other : κ} {change : Option α → α}
    {entries : List (κ × α)} (h : Ascending entries) :
    find? other (alter key change entries) =
      if other = key then some (change (find? key entries)) else find? other entries := by
  induction entries with
  | nil => by_cases he : key = other <;> simp [alter, find?, he, eq_comm]
  | cons e rest ih =>
    obtain ⟨k, v⟩ := e
    obtain ⟨hk, hrest⟩ := List.pairwise_cons.1 h
    rw [alter]
    split
    · next hlt =>
      -- the key is in front of all entries, so it was not there
      have hnone : find? key ((k, v) :: rest) = none := by
        refine find?_eq_none_of_lt fun p hp => ?_
        rcases List.mem_cons.1 hp with rfl | hp
        · exact hlt
        · exact OrderedKey.trans hlt (hk p hp)
      rw [hnone, find?]
      by_cases he : key = other
      · simp [he]
      · rw [if_neg he, if_neg (fun h' => he h'.symm)]
    · split
      · next hlt =>
        have hne : k ≠ key := fun he => OrderedKey.irrefl k (he ▸ hlt)
        simp only [find?]
        by_cases ho : k = other
        · rw [if_pos ho, if_pos ho, if_neg (fun h' => hne (ho.trans h'))]
        · rw [if_neg ho, if_neg ho, ih hrest, if_neg hne]
      · next h₁ h₂ =>
        -- neither before nor behind: the entry has the key
        have he : key = k := OrderedKey.eq_of_not_lt h₁ h₂
        subst he
        by_cases ho : key = other
        · simp [find?, ho]
        · simp only [find?]
          rw [if_neg ho, if_neg ho, if_neg (fun h' => ho h'.symm)]

end Laws

end Entries

/-- A map from keys to values, listed in strictly ascending key order. -/
structure KeyMap (κ α : Type) [LT κ] where
  entries : List (κ × α)
  ascending : Ascending entries

namespace KeyMap

variable {κ α β : Type} [LT κ]

instance : EmptyCollection (KeyMap κ α) := ⟨⟨[], List.Pairwise.nil⟩⟩

instance : Inhabited (KeyMap κ α) := ⟨∅⟩

theorem ext_entries : ∀ {m n : KeyMap κ α}, m.entries = n.entries → m = n
  | ⟨_, _⟩, ⟨_, _⟩, rfl => rfl

instance [DecidableEq κ] [DecidableEq α] : DecidableEq (KeyMap κ α) := fun m n =>
  if h : m.entries = n.entries then isTrue (ext_entries h)
  else isFalse (fun he => h (congrArg entries he))

instance [BEq κ] [BEq α] : BEq (KeyMap κ α) := ⟨fun m n => m.entries == n.entries⟩

/-- The keys in ascending order. -/
def keys (m : KeyMap κ α) : List κ := m.entries.map Prod.fst

def values (m : KeyMap κ α) : List α := m.entries.map Prod.snd

def isEmpty (m : KeyMap κ α) : Bool := m.entries.isEmpty

def mapValues (m : KeyMap κ α) (f : κ → α → β) : KeyMap κ β :=
  ⟨Entries.mapValues f m.entries, Entries.ascending_mapValues m.ascending⟩

section Lookup

variable [DecidableEq κ]

def get? (m : KeyMap κ α) (key : κ) : Option α := Entries.find? key m.entries

def contains (m : KeyMap κ α) (key : κ) : Bool := (m.get? key).isSome

def erase (m : KeyMap κ α) (key : κ) : KeyMap κ α :=
  ⟨Entries.erase key m.entries, Entries.ascending_erase m.ascending⟩

end Lookup

section Update

variable [DecidableLT κ] [OrderedKey κ]

/-- Store under `key` what `change` makes of the value already there. -/
def alter (m : KeyMap κ α) (key : κ) (change : Option α → α) : KeyMap κ α :=
  ⟨Entries.alter key change m.entries, Entries.ascending_alter m.ascending⟩

def insert (m : KeyMap κ α) (key : κ) (value : α) : KeyMap κ α := m.alter key (fun _ => value)

/-- Store `value` under `key` unless the key has a value. -/
def insertNew (m : KeyMap κ α) (key : κ) (value : α) : KeyMap κ α :=
  m.alter key (fun old => old.getD value)

/-- The map of the given pairs, a later value replacing an earlier one of the same key. -/
def ofList (pairs : List (κ × α)) : KeyMap κ α :=
  ⟨Entries.ofList pairs, Entries.ascending_ofList pairs⟩

/-! ### Lookup laws

All updates are cases of `alter`, so their laws are cases of one. -/

variable [DecidableEq κ]

/-- An update changes what is under its key and nothing else. -/
theorem get?_alter (m : KeyMap κ α) (key other : κ) (change : Option α → α) :
    (m.alter key change).get? other =
      if other = key then some (change (m.get? key)) else m.get? other :=
  Entries.find?_alter m.ascending

theorem get?_insert (m : KeyMap κ α) (key other : κ) (value : α) :
    (m.insert key value).get? other = if other = key then some value else m.get? other :=
  get?_alter m key other _

theorem get?_insertNew (m : KeyMap κ α) (key other : κ) (value : α) :
    (m.insertNew key value).get? other =
      if other = key then some ((m.get? key).getD value) else m.get? other :=
  get?_alter m key other _

end Update

end KeyMap

end EndpointDocs
