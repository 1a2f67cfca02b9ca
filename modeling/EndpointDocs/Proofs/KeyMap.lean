import EndpointDocs.KeyMap
import Mathlib.Data.List.Nodup

/-!
# Maps by their lookups

A map is determined by what `get?` answers (`ext_get?`), so a law about an operation is one equation
about the lookups behind it. The entries of a map are the pairs that it answers with, each key once.

Every container of the program whose order matters in the output (components, responses, headers,
paths, ...) is such a map, and most results about a run are stated through `get?`: a lemma about
lookups is what a caller wants, and `ext_get?` turns it back into an equality of documents.
-/

namespace EndpointDocs

instance {κ α : Type} [LT κ] [DecidableLT κ] (entries : List (κ × α)) :
    Decidable (Ascending entries) :=
  inferInstanceAs (Decidable (entries.Pairwise fun a b => a.1 < b.1))

namespace Entries

variable {κ α β : Type} [DecidableEq κ]

/-! ### Lookups in a list of entries

The lists need not be in order for the lemmas of this part. A lookup finds the first entry under its
key, so that what it finds is an entry, and it finds none only where no entry has the key. -/

theorem mem_of_find?_eq_some {key : κ} {v : α} {entries : List (κ × α)}
    (h : find? key entries = some v) : (key, v) ∈ entries := by
  induction entries with
  | nil => cases h
  | cons e rest ih =>
    obtain ⟨k, w⟩ := e
    rw [find?] at h
    split at h
    · next hk =>
      cases h
      exact hk ▸ List.mem_cons_self
    · exact List.mem_cons_of_mem _ (ih h)

theorem find?_eq_none_iff {key : κ} {entries : List (κ × α)} :
    find? key entries = none ↔ key ∉ entries.map Prod.fst := by
  induction entries with
  | nil => simp [find?]
  | cons e rest ih =>
    obtain ⟨k, a⟩ := e
    rw [find?, List.map_cons, List.mem_cons, not_or]
    by_cases hk : k = key
    · simp [hk]
    · rw [if_neg hk, ih]
      exact (and_iff_right (Ne.symm hk)).symm

theorem find?_mapValues (f : κ → α → β) (key : κ) (entries : List (κ × α)) :
    find? key (mapValues f entries) = (find? key entries).map (f key) := by
  induction entries with
  | nil => rfl
  | cons e rest ih =>
    obtain ⟨k, v⟩ := e
    show find? key ((k, f k v) :: mapValues f rest) = _
    rw [find?, find?, ih]
    by_cases hk : k = key
    · subst hk
      rw [if_pos rfl, if_pos rfl]
      rfl
    · rw [if_neg hk, if_neg hk]

/-- Looking up a key among items that are kept under a key of their own. -/
theorem find?_map_pair {ι : Type} (f : ι → κ) (g : ι → α) (key : κ) (items : List ι) :
    find? key (items.map fun i => (f i, g i)) = (items.find? fun i => f i = key).map g := by
  induction items with
  | nil => rfl
  | cons i rest ih =>
    rw [List.map_cons, find?, ih, List.find?_cons]
    by_cases hk : f i = key
    · simp [hk]
    · simp [hk]

variable [LT κ] [OrderedKey κ]

/-! ### Lookups in ascending entries

In ascending order no key occurs twice. An entry is then what the lookup of its key finds, and the
lookups determine the list: this is what `KeyMap.ext_get?` rests on. -/

/-- The converse of `mem_of_find?_eq_some`. An entry further back has a larger key than all in front
of it, so the lookup passes them. -/
theorem find?_eq_some_of_mem {key : κ} {v : α} {entries : List (κ × α)}
    (ha : Ascending entries) (h : (key, v) ∈ entries) : find? key entries = some v := by
  induction entries with
  | nil => cases h
  | cons e rest ih =>
    obtain ⟨k, w⟩ := e
    obtain ⟨hk, hrest⟩ := List.pairwise_cons.1 ha
    rw [find?]
    rcases List.mem_cons.1 h with he | hm
    · cases he
      rw [if_pos rfl]
    · have hne : k ≠ key := fun he => OrderedKey.irrefl k (he ▸ hk _ hm)
      rw [if_neg hne, ih hrest hm]

/-- The first entry is what the lookups say it is: no key below it has a value. By induction on one
list with the other one free, since the rests are again ascending lists with the same lookups. -/
theorem ext_find? {entries others : List (κ × α)} (ha : Ascending entries) (hb : Ascending others)
    (h : ∀ key, find? key entries = find? key others) : entries = others := by
  induction entries generalizing others with
  | nil =>
    cases others with
    | nil => rfl
    | cons e rest => exact absurd (h e.1) (by simp [find?])
  | cons e rest ih =>
    obtain ⟨k, v⟩ := e
    obtain ⟨hk, hrest⟩ := List.pairwise_cons.1 ha
    cases others with
    | nil => exact absurd (h k) (by simp [find?])
    | cons e' rest' =>
      obtain ⟨k', v'⟩ := e'
      obtain ⟨hk', hrest'⟩ := List.pairwise_cons.1 hb
      have hmem : (k, v) ∈ (k', v') :: rest' := mem_of_find?_eq_some (by rw [← h k]; simp [find?])
      have hmem' : (k', v') ∈ (k, v) :: rest := mem_of_find?_eq_some (by rw [h k']; simp [find?])
      -- each first key occurs in the other list, and nothing there is below its first key
      have hkk : k = k' := by
        rcases List.mem_cons.1 hmem with he | hm
        · exact (Prod.mk.inj he).1
        · rcases List.mem_cons.1 hmem' with he | hm'
          · exact (Prod.mk.inj he).1.symm
          · exact absurd (OrderedKey.trans (hk _ hm') (hk' _ hm)) (OrderedKey.irrefl k)
      subst hkk
      have hvv : v = v' := by simpa [find?] using h k
      subst hvv
      congr 1
      -- the rests agree too: of the first key neither has a value, and at others the lookups go
      -- past it
      refine ih hrest hrest' fun key => ?_
      by_cases he : k = key
      · subst he
        rw [find?_eq_none_of_lt hk, find?_eq_none_of_lt hk']
      · simpa [find?, he] using h key

/-! ### Entries put in order

`Entries.ofList` inserts the items of a list one by one. It keeps ascending lists as they are, and
of any other list it loses no key and invents no entry. Each is proved with the entries that were
put in before as a free list in front, since that list grows along the induction. -/

section Ordering

variable [DecidableLT κ]

omit [DecidableEq κ] in
/-- A key above all others goes to the end. This is each step of `ofList` over a list in order. -/
theorem insert_eq_append {key : κ} {value : α} {entries : List (κ × α)}
    (h : ∀ p ∈ entries, p.1 < key) : insert key value entries = entries ++ [(key, value)] := by
  induction entries with
  | nil => rfl
  | cons e rest ih =>
    obtain ⟨k, v⟩ := e
    obtain ⟨hk, hrest⟩ := List.forall_mem_cons.1 h
    have hnot : ¬ key < k := fun hlt => OrderedKey.irrefl k (OrderedKey.trans hk hlt)
    rw [insert, alter, if_neg hnot, if_pos hk, List.cons_append, ← ih hrest]
    rfl

omit [DecidableEq κ] in
/-- Entries in ascending order stay as they are. -/
theorem ofList_of_ascending {entries : List (κ × α)} (h : Ascending entries) :
    ofList entries = entries := by
  suffices hfold : ∀ front : List (κ × α), Ascending (front ++ entries) →
      entries.foldl (fun known p => insert p.1 p.2 known) front = front ++ entries from
    hfold [] h
  clear h
  induction entries with
  | nil => exact fun front _ => (List.append_nil front).symm
  | cons p rest ih =>
    intro front hfront
    -- what was put in before is below the next key, as they stand in this order in the whole list
    have hlast : ∀ q ∈ front, q.1 < p.1 := fun q hq =>
      (List.pairwise_append.1 hfront).2.2 q hq p List.mem_cons_self
    rw [List.foldl_cons, insert_eq_append hlast, ih _ (by rwa [List.append_cons] at hfront),
      List.append_cons front p rest]

omit [DecidableEq κ] [OrderedKey κ] in
/-- Nothing but the entry itself comes in. -/
theorem mem_of_mem_insert {key : κ} {value : α} {entries : List (κ × α)} {p : κ × α}
    (h : p ∈ insert key value entries) : p = (key, value) ∨ p ∈ entries := by
  induction entries with
  | nil => exact .inl (List.mem_singleton.1 h)
  | cons e rest ih =>
    obtain ⟨k, v⟩ := e
    rw [insert, alter] at h
    split at h
    · exact List.mem_cons.1 h
    · split at h
      · rcases List.mem_cons.1 h with rfl | hrest
        · exact .inr List.mem_cons_self
        · exact (ih hrest).imp_right (List.mem_cons_of_mem _)
      · exact (List.mem_cons.1 h).imp_right (List.mem_cons_of_mem _)

omit [DecidableEq κ] [OrderedKey κ] in
/-- No entry is invented. -/
theorem mem_of_mem_ofList {entries : List (κ × α)} {p : κ × α} (h : p ∈ ofList entries) :
    p ∈ entries := by
  suffices hfold : ∀ known : List (κ × α),
      p ∈ entries.foldl (fun known q => insert q.1 q.2 known) known → p ∈ known ∨ p ∈ entries from
    (hfold [] h).resolve_left List.not_mem_nil
  clear h
  induction entries with
  | nil => exact fun known h => .inl h
  | cons q rest ih =>
    intro known h
    rcases ih _ h with hknown | hrest
    · rcases mem_of_mem_insert hknown with rfl | hknown
      · exact .inr List.mem_cons_self
      · exact .inl hknown
    · exact .inr (List.mem_cons_of_mem _ hrest)

/-- No key is lost. -/
theorem key_mem_ofList {entries : List (κ × α)} {p : κ × α} (h : p ∈ entries) :
    p.1 ∈ (ofList entries).map Prod.fst := by
  suffices hfold : ∀ known : List (κ × α), Ascending known →
      p.1 ∈ known.map Prod.fst ∨ p ∈ entries →
      p.1 ∈ (entries.foldl (fun known q => insert q.1 q.2 known) known).map Prod.fst from
    hfold [] List.Pairwise.nil (.inr h)
  clear h
  induction entries with
  | nil => exact fun known _ h => h.resolve_right List.not_mem_nil
  | cons q rest ih =>
    intro known hknown h
    -- one insertion keeps the keys and adds its own; shown on the lookups, where it is one equation
    have hkeys : p.1 = q.1 ∨ p.1 ∈ known.map Prod.fst →
        p.1 ∈ (insert q.1 q.2 known).map Prod.fst := by
      contrapose!
      rw [← find?_eq_none_iff, ← find?_eq_none_iff, insert, find?_alter hknown]
      intro hnone
      by_cases hq : p.1 = q.1
      · rw [if_pos hq] at hnone
        cases hnone
      · rw [if_neg hq] at hnone
        exact ⟨hq, hnone⟩
    refine ih _ (ascending_alter hknown) ?_
    rcases h with h | h
    · exact .inl (hkeys (.inr h))
    · rcases List.mem_cons.1 h with rfl | hrest
      · exact .inl (hkeys (.inl rfl))
      · exact .inr hrest

end Ordering

end Entries

namespace KeyMap

variable {κ α β : Type} [LT κ] [DecidableEq κ]

/-! ### The map of the lookups

From here on the order of the entries is carried by the type. The entries, keys and values of a map
are described by its lookups alone. -/

@[simp]
theorem get?_mapValues (m : KeyMap κ α) (f : κ → α → β) (key : κ) :
    (m.mapValues f).get? key = (m.get? key).map (f key) :=
  Entries.find?_mapValues f key m.entries

theorem contains_iff {m : KeyMap κ α} {key : κ} :
    m.contains key = true ↔ ∃ v, m.get? key = some v := Option.isSome_iff_exists

section Order

variable [OrderedKey κ]

/-- The entries are the graph of the lookup. -/
theorem mem_entries_iff {m : KeyMap κ α} {key : κ} {v : α} :
    (key, v) ∈ m.entries ↔ m.get? key = some v :=
  ⟨Entries.find?_eq_some_of_mem m.ascending, Entries.mem_of_find?_eq_some⟩

/-- Two maps with the same lookups are the same map. -/
theorem ext_get? {m n : KeyMap κ α} (h : ∀ key, m.get? key = n.get? key) : m = n :=
  ext_entries (Entries.ext_find? m.ascending n.ascending h)

theorem mem_keys_iff {m : KeyMap κ α} {key : κ} :
    key ∈ m.keys ↔ ∃ v, m.get? key = some v := by
  simp only [keys, List.mem_map, Prod.exists, exists_and_right, exists_eq_right, mem_entries_iff]

theorem mem_values_iff {m : KeyMap κ α} {v : α} :
    v ∈ m.values ↔ ∃ key, m.get? key = some v := by
  simp only [values, List.mem_map, Prod.exists, exists_eq_right, mem_entries_iff]

omit [DecidableEq κ] in
/-- The keys ascend strictly, so none can be there twice. -/
theorem nodup_keys (m : KeyMap κ α) : m.keys.Nodup := by
  refine List.pairwise_map.2 (m.ascending.imp fun {a b} hlt he => ?_)
  exact OrderedKey.irrefl a.1 (by simpa [he] using hlt)

end Order

section Update

variable [DecidableLT κ] [OrderedKey κ]

/-! ### Many updates

Two loops over a list of entries that the program runs on a map. Their results are given lookup by
lookup, with what was in the map before as one of the two cases. -/

/-- Adding entries one by one keeps what is there. -/
theorem get?_foldl_insertNew (entries : List (κ × α)) (m : KeyMap κ α) (key : κ) :
    (entries.foldl (fun m p => m.insertNew p.1 p.2) m).get? key =
      (m.get? key <|> Entries.find? key entries) := by
  induction entries generalizing m with
  | nil => simp [Entries.find?]
  | cons e rest ih =>
    obtain ⟨k, v⟩ := e
    rw [List.foldl_cons, ih, get?_insertNew, Entries.find?]
    by_cases hk : key = k
    · subst hk
      cases m.get? key <;> simp
    · rw [if_neg hk, if_neg (Ne.symm hk)]

/-- Changing a map by entries of distinct keys one by one changes the value of each of them once. -/
theorem get?_foldl_alter (change : β → Option α → α) {entries : List (κ × β)}
    (h : Ascending entries) (m : KeyMap κ α) (key : κ) :
    (entries.foldl (fun m p => m.alter p.1 (change p.2)) m).get? key =
      match Entries.find? key entries with
      | none => m.get? key
      | some v => some (change v (m.get? key)) := by
  induction entries generalizing m with
  | nil => rfl
  | cons e rest ih =>
    obtain ⟨hfirst, hrest⟩ := List.pairwise_cons.1 h
    rw [List.foldl_cons, ih hrest, get?_alter, Entries.find?]
    by_cases hk : key = e.1
    · subst hk
      -- the key does not occur again, so that the change below is the only one
      rw [if_pos rfl, if_pos rfl, Entries.find?_eq_none_of_lt hfirst]
    · rw [if_neg hk, if_neg (Ne.symm hk)]

end Update

end KeyMap

end EndpointDocs
