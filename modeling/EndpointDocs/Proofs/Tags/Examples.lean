import EndpointDocs.Proofs.KeyMap
import EndpointDocs.Proofs.Tags.Reading
import EndpointDocs.Proofs.Variant
import Mathlib.Data.List.Find

/-!
# The examples of a tag

    example children ──examplesOf──▶ (key, example) ──firstOfEachKey──▶ map of examples

An example of a tag is kept under its name, and one without a name under a key that is made of its
place. Names and made keys share one map in which the first example of a key wins, so every example
is kept exactly if no name is a made key of the same tag (`examples_of_mediaOf`); a name such as
`example2` can take the place of an example that has none (`unnamed_example_lost`).
-/

namespace EndpointDocs.Tags

open Resolving

/-! ## Names and made keys

Two kinds of keys share a map: names, which may be any text, and keys made from places, which are
`example1`, `example2` and so on. Blank examples take up a place, though they are not kept. -/

/-- The name of an example, unless it is blank. -/
def exampleName? (e : Element) : Option String := (e.trimmedAttribute? "name").filter (· ≠ "")

/-- The key of an example without a name, by its place. -/
def placeKey (place : Nat) : String := "example" ++ toString place

/-- Different places have different digits. -/
theorem placeKey_injective : Function.Injective placeKey := by
  intro m n h
  have hdigits : Nat.toDigits 10 m = Nat.toDigits 10 n := by
    have hsame : m.repr = n.repr := (String.append_right_inj _).1 h
    rw [← Nat.toList_repr, ← Nat.toList_repr, hsame]
  calc m = Nat.ofDigitChars 10 (Nat.toDigits 10 m) 0 := Nat.ofDigitChars_ten_toDigits.symm
    _ = Nat.ofDigitChars 10 (Nat.toDigits 10 n) 0 := by rw [hdigits]
    _ = n := Nat.ofDigitChars_ten_toDigits

/-- A name is the key, and else the place makes one. -/
theorem exampleKey_eq (place : Nat) (e : Element) :
    exampleKey place e = (exampleName? e).getD (placeKey place) := by
  unfold exampleKey exampleName?
  split
  · next h => rw [h]; rfl
  · next h => rw [h]; rfl
  · next name hname h =>
    rw [h, Option.filter_some_pos (by simpa using hname)]
    rfl

/-- What is shown of an example. -/
def exampleOf (e : Element) : Example := ⟨e.attribute? "summary", exampleValue (exampleText e)⟩

/-- The examples of a tag that are not blank, each with its place among all of them. -/
def placedExamples (tag : Element) : List (Element × Nat) :=
  ((tag.childrenNamed "example").zipIdx 1).filter fun p => exampleText p.1 ≠ ""

theorem nodup_places (tag : Element) : ((placedExamples tag).map Prod.snd).Nodup := by
  refine List.Nodup.sublist (List.filter_sublist.map Prod.snd) ?_
  rw [List.zipIdx_map_snd]
  exact List.nodup_range'

/-- The induction is on the examples; the place goes up with each, blank or not. -/
theorem examplesFrom_eq (place : Nat) (es : List Element) :
    examplesFrom place es = ((es.zipIdx place).filter fun p => exampleText p.1 ≠ "").map fun p =>
      (exampleKey p.2 p.1, exampleOf p.1) := by
  induction es generalizing place with
  | nil => rfl
  | cons e rest ih =>
    rw [examplesFrom, ih, List.zipIdx_cons, List.filter_cons]
    by_cases hblank : exampleText e = ""
    · simp [hblank]
    · simp [hblank, exampleOf]

theorem examplesOf_eq (tag : Element) : examplesOf tag =
    (placedExamples tag).map fun p => (exampleKey p.2 p.1, exampleOf p.1) :=
  examplesFrom_eq 1 _

/-! ## What is to be kept

What a reader of the documentation would expect, said without the map: the first example of each
name, and all examples that have none. That the keys of this list are distinct is `NamesApart`. -/

/-- The names that a tag gives to its examples, each once. -/
def exampleNames (tag : Element) : List String :=
  distinct ((placedExamples tag).filterMap fun p => exampleName? p.1)

/-- For each name the first example of that name. -/
def namedExamples (tag : Element) : List (String × Example) :=
  (exampleNames tag).filterMap fun name =>
    ((placedExamples tag).find? fun p => exampleName? p.1 = some name).map fun p =>
      (name, exampleOf p.1)

/-- The examples without a name, under the keys made of their places. -/
def unnamedExamples (tag : Element) : List (String × Example) :=
  ((placedExamples tag).filter fun p => exampleName? p.1 = none).map fun p =>
    (placeKey p.2, exampleOf p.1)

variable {tag : Element} {key : String} {x : Example}

/-- A name is there if an example has it. -/
theorem mem_exampleNames :
    key ∈ exampleNames tag ↔ ∃ p ∈ placedExamples tag, exampleName? p.1 = some key :=
  mem_distinct.trans List.mem_filterMap

/-- Of several examples with a name it is the first one. -/
theorem mem_namedExamples : (key, x) ∈ namedExamples tag ↔
    ∃ p, (placedExamples tag).find? (fun p => exampleName? p.1 = some key) = some p ∧
      exampleOf p.1 = x := by
  unfold namedExamples
  rw [List.mem_filterMap]
  constructor
  · rintro ⟨name, -, hfound⟩
    obtain ⟨p, hp, hpair⟩ := Option.map_eq_some_iff.1 hfound
    obtain ⟨rfl, rfl⟩ := Prod.mk.inj hpair
    exact ⟨p, hp, rfl⟩
  · rintro ⟨p, hp, rfl⟩
    have hname : exampleName? p.1 = some key := by simpa using List.find?_some hp
    refine ⟨key, mem_exampleNames.2 ⟨p, List.mem_of_find?_eq_some hp, hname⟩, ?_⟩
    rw [hp, Option.map_some]

/-- An example without a name is there by its place. -/
theorem mem_unnamedExamples : (key, x) ∈ unnamedExamples tag ↔
    ∃ p ∈ placedExamples tag, exampleName? p.1 = none ∧ placeKey p.2 = key ∧
      exampleOf p.1 = x := by
  simp [unnamedExamples, and_assoc]

/-- Each name has an entry. -/
theorem keys_namedExamples (tag : Element) :
    (namedExamples tag).map Prod.fst = exampleNames tag := by
  have hfound : ∀ name ∈ exampleNames tag, ∃ p,
      (placedExamples tag).find? (fun p => exampleName? p.1 = some name) = some p := by
    intro name hname
    obtain ⟨p, hp, hpname⟩ := mem_exampleNames.1 hname
    exact Option.isSome_iff_exists.1 (List.find?_isSome.2 ⟨p, hp, by simpa using hpname⟩)
  unfold namedExamples
  generalize exampleNames tag = names at hfound
  induction names with
  | nil => rfl
  | cons name rest ih =>
    obtain ⟨⟨p, hp⟩, hrest⟩ := List.forall_mem_cons.1 hfound
    simp only [List.filterMap_cons, hp, Option.map_some, List.map_cons, ih hrest]

/-- No two examples have the same place. -/
theorem nodup_keys_unnamedExamples (tag : Element) :
    ((unnamedExamples tag).map Prod.fst).Nodup := by
  have hkeys : (unnamedExamples tag).map Prod.fst =
      (((placedExamples tag).filter fun p => exampleName? p.1 = none).map Prod.snd).map
        placeKey := by
    rw [unnamedExamples, List.map_map, List.map_map]
    rfl
  rw [hkeys]
  exact ((nodup_places tag).sublist (List.filter_sublist.map _)).map placeKey_injective

/-- No name of the tag is the key that is made for an example without a name. -/
def NamesApart (tag : Element) : Prop :=
  ∀ p ∈ placedExamples tag, exampleName? p.1 = none → placeKey p.2 ∉ exampleNames tag

instance (tag : Element) : Decidable (NamesApart tag) :=
  inferInstanceAs (Decidable (∀ p ∈ placedExamples tag, _ → _))

/-- Names are distinct and so are made keys, hence only one of each could be equal. -/
theorem namesApart_iff : NamesApart tag ↔
    ((namedExamples tag ++ unnamedExamples tag).map Prod.fst).Nodup := by
  rw [List.map_append, keys_namedExamples, List.nodup_append']
  have hnames := nodup_distinct ((placedExamples tag).filterMap fun p => exampleName? p.1)
  have hplaces := nodup_keys_unnamedExamples tag
  refine ⟨fun h => ⟨hnames, hplaces, ?_⟩, ?_⟩
  · intro key hkey hmem
    obtain ⟨⟨_, x⟩, hx, rfl⟩ := List.mem_map.1 hmem
    obtain ⟨p, hp, hnone, rfl, -⟩ := mem_unnamedExamples.1 hx
    exact h p hp hnone hkey
  · rintro ⟨-, -, hdisjoint⟩ p hp hnone hkey
    exact hdisjoint hkey (List.mem_map.2
      ⟨(placeKey p.2, exampleOf p.1), mem_unnamedExamples.2 ⟨p, hp, hnone, rfl, rfl⟩, rfl⟩)

/-! ## What is kept

The map takes the first example of every key. Where names are apart from made keys, the first
example of a key is the first one of the name, or the only one of the place. -/

/-- The first example of each key is kept. -/
theorem mem_firstOfEachKey : (key, x) ∈ (firstOfEachKey (examplesOf tag)).entries ↔
    ∃ p, (placedExamples tag).find? (fun p => exampleKey p.2 p.1 = key) = some p ∧
      exampleOf p.1 = x := by
  have hlookup : (firstOfEachKey (examplesOf tag)).get? key =
      Entries.find? key (examplesOf tag) := by
    rw [firstOfEachKey, KeyMap.get?_foldl_insertNew]
    exact Option.none_or
  rw [KeyMap.mem_entries_iff, hlookup, examplesOf_eq, Entries.find?_map_pair]
  exact Option.map_eq_some_iff

/-- Apart from made keys, a name leads to the first example of that name. -/
theorem find?_of_name (h : NamesApart tag) (hkey : key ∈ exampleNames tag) :
    (placedExamples tag).find? (fun p => exampleKey p.2 p.1 = key) =
      (placedExamples tag).find? fun p => exampleName? p.1 = some key := by
  refine List.find?_congr fun p hp => ?_
  rw [exampleKey_eq]
  cases hname : exampleName? p.1 with
  | some name => simp
  | none =>
    have hne : placeKey p.2 ≠ key := fun heq => h p hp hname (heq ▸ hkey)
    simp [hne]

/-- A key that is no name leads to the example without a name at its place. -/
theorem find?_of_place (hkey : key ∉ exampleNames tag) {p : Element × Nat} :
    (placedExamples tag).find? (fun p => exampleKey p.2 p.1 = key) = some p ↔
      p ∈ placedExamples tag ∧ exampleName? p.1 = none ∧ placeKey p.2 = key := by
  -- no name is the key, so an item has it only by its place
  have hiff : ∀ q ∈ placedExamples tag,
      (exampleKey q.2 q.1 = key ↔ exampleName? q.1 = none ∧ placeKey q.2 = key) := by
    intro q hq
    rw [exampleKey_eq]
    cases hname : exampleName? q.1 with
    | none => simp
    | some name =>
      have hne : name ≠ key := fun heq => hkey (mem_exampleNames.2 ⟨q, hq, heq ▸ hname⟩)
      simp [hne]
  constructor
  · intro hfound
    have hp := List.mem_of_find?_eq_some hfound
    have hpkey := List.find?_some hfound
    exact ⟨hp, (hiff p hp).1 (of_decide_eq_true hpkey)⟩
  · rintro ⟨hp, hpkey⟩
    have hsome : ((placedExamples tag).find? fun p => exampleKey p.2 p.1 = key).isSome :=
      List.find?_isSome.2 ⟨p, hp, decide_eq_true ((hiff p hp).2 hpkey)⟩
    obtain ⟨q, hfound⟩ := Option.isSome_iff_exists.1 hsome
    have hq := List.mem_of_find?_eq_some hfound
    have hqkey := List.find?_some hfound
    -- the item found has the same place, and no two items share one
    have hplace : q.2 = p.2 :=
      placeKey_injective (((hiff q hq).1 (of_decide_eq_true hqkey)).2.trans hpkey.2.symm)
    rw [hfound, List.inj_on_of_nodup_map (nodup_places tag) hq hp hplace]

/-- The order of the map is that of its keys, so the two lists are compared up to order. -/
theorem firstOfEachKey_perm_iff : (firstOfEachKey (examplesOf tag)).entries.Perm
    (namedExamples tag ++ unnamedExamples tag) ↔ NamesApart tag := by
  have hkeys := (firstOfEachKey (examplesOf tag)).nodup_keys
  constructor
  · intro hperm
    exact namesApart_iff.2 ((hperm.map Prod.fst).nodup_iff.1 hkeys)
  · intro h
    refine (List.perm_ext_iff_of_nodup hkeys.of_map (namesApart_iff.1 h).of_map).2 ?_
    -- a key is that of a name or that of a place, and never of both
    rintro ⟨key, x⟩
    rw [mem_firstOfEachKey, List.mem_append]
    by_cases hkey : key ∈ exampleNames tag
    · have hnot : (key, x) ∉ unnamedExamples tag := by
        intro hmem
        obtain ⟨p, hp, hnone, rfl, -⟩ := mem_unnamedExamples.1 hmem
        exact h p hp hnone hkey
      rw [or_iff_left hnot, mem_namedExamples, find?_of_name h hkey]
    · have hnot : (key, x) ∉ namedExamples tag := by
        intro hmem
        exact hkey (keys_namedExamples tag ▸ List.mem_map_of_mem hmem)
      rw [or_iff_right hnot, mem_unnamedExamples]
      simp only [find?_of_place hkey, and_assoc]

/-! ## Media

The media of a tag are there as soon as its schema is, so the statement is about a tag with a schema
that can be resolved, and says that they are produced. -/

variable {scope : Scope} {r q : Registry} {schema : Schema}

/-- The examples do not depend on the registry. -/
theorem exists_examples_of_mediaOf (h : (schemaOf scope tag).run r = some (.ok (some schema), q)) :
    ∃ media s, (mediaOf scope tag).run r = some (.ok (some media), s) ∧
      media.examples = firstOfEachKey (examplesOf tag) := by
  obtain ⟨media, s, hrun, hexamples, -⟩ := exists_mediaOfSchema scope.variant tag schema q
  refine ⟨media, s, ?_, hexamples⟩
  rw [mediaOf, run_bind_of_run h]
  dsimp only
  rw [run_bind_of_run hrun]
  rfl

/-- Each name has the first example of that name, and each example without a name has an entry of
its own, exactly if no name is the key of an example without one. -/
theorem examples_of_mediaOf (h : (schemaOf scope tag).run r = some (.ok (some schema), q)) :
    ∃ media s, (mediaOf scope tag).run r = some (.ok (some media), s) ∧
      (media.examples.entries.Perm (namedExamples tag ++ unnamedExamples tag) ↔
        NamesApart tag) := by
  obtain ⟨media, s, hrun, hexamples⟩ := exists_examples_of_mediaOf h
  exact ⟨media, s, hrun, hexamples ▸ firstOfEachKey_perm_iff⟩

/-- A response of a text with examples, each with its `name` attribute. -/
def textResponse (examples : List (String × String)) : Element :=
  let shown := examples.map fun (name, text) =>
    (Element.ofText "example" text).withAttribute "name" name
  ((⟨"response", ∅, shown, none⟩ : Element).withAttribute "code" "200").withAttribute "cref"
    "String"

/-- A name that comes twice, a name without an example, and examples without a name. -/
def mixedResponse : Element := textResponse
  [("short", "Ada"), ("", "Bob"), (" short ", "Carl"), ("", " "), ("", "Dora"), ("blank", "")]

/-- Where no type but the built-in ones is known. -/
def builtIns : Scope := ⟨fun _ => none, 1, .default, "/a"⟩

/-- The two examples without a name have the second and the fifth place. -/
theorem namesApart_mixedResponse : NamesApart mixedResponse := by
  decide +kernel

/-- The first of the short examples is kept, and neither of the blank ones. -/
theorem examples_mixedResponse : ∃ media s,
    (mediaOf builtIns mixedResponse).run {} = some (.ok (some media), s) ∧
      media.examples.entries.Perm [("short", ⟨none, .string "Ada"⟩),
        ("example2", ⟨none, .string "Bob"⟩), ("example5", ⟨none, .string "Dora"⟩)] := by
  have hschema : (schemaOf builtIns mixedResponse).run {} =
      some (.ok (some (.typed "string")), {}) := by rfl
  have hnamed : namedExamples mixedResponse = [("short", ⟨none, .string "Ada"⟩)] := rfl
  have hunnamed : unnamedExamples mixedResponse =
      [("example2", ⟨none, .string "Bob"⟩), ("example5", ⟨none, .string "Dora"⟩)] := rfl
  obtain ⟨media, s, hrun, hkept⟩ := examples_of_mediaOf hschema
  rw [hnamed, hunnamed] at hkept
  exact ⟨media, s, hrun, hkept.2 namesApart_mixedResponse⟩

/-- An example without a name at the place that the name of another one spells. -/
def clashingResponse : Element := textResponse [("example2", "Ada"), ("", "Bob")]

/-- The name was there first, and the made key is the same. -/
theorem unnamed_example_lost :
    unnamedExamples clashingResponse = [("example2", ⟨none, .string "Bob"⟩)] ∧ ∃ media s,
      (mediaOf builtIns clashingResponse).run {} = some (.ok (some media), s) ∧
        media.examples.entries = [("example2", ⟨none, .string "Ada"⟩)] := by
  have hschema : (schemaOf builtIns clashingResponse).run {} =
      some (.ok (some (.typed "string")), {}) := by rfl
  have hentries : (firstOfEachKey (examplesOf clashingResponse)).entries =
      [("example2", ⟨none, .string "Ada"⟩)] := rfl
  obtain ⟨media, s, hrun, hexamples⟩ := exists_examples_of_mediaOf hschema
  exact ⟨rfl, media, s, hrun, hexamples ▸ hentries⟩

end EndpointDocs.Tags
