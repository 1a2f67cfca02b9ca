import EndpointDocs.Element.File
import EndpointDocs.Format
import EndpointDocs.Proofs.FileSystem.Flat
import EndpointDocs.Proofs.Json.Reading

/-!
# Element trees in JSON files

    Element ──toJson──▶ Json ──pretty──▶ text in a file ──load──▶ Element

An element leaves out the fields that hold nothing, at every node of its tree, and a reader puts
them back (`element?_partsOf`); an empty text is none of these and comes back as it is. A reader
follows arrays and objects to a certain depth only, so a tree is loaded from the file that it was
written to exactly if its JSON form nests no deeper (`load_of_write`).
-/

namespace EndpointDocs

/-! ## Nesting

How deep a value nests is counted as the reader counts it: each array and each object is one level.
-/

namespace Json

mutual

/-- How many arrays and objects nest in a value. -/
def levels : Json → Nat
  | .array items => levelsOfItems items + 1
  | .object fields => levelsOfFields fields + 1
  | _ => 0

def levelsOfItems : List Json → Nat
  | [] => 0
  | v :: rest => max (levels v) (levelsOfItems rest)

def levelsOfFields : List (String × Json) → Nat
  | [] => 0
  | (_, v) :: rest => max (levels v) (levelsOfFields rest)

end

/-- Fields are on one level, so the deepest one counts. -/
theorem levelsOfFields_append (fs gs : List (String × Json)) :
    levelsOfFields (fs ++ gs) = max (levelsOfFields fs) (levelsOfFields gs) := by
  induction fs with
  | nil => simp [levelsOfFields]
  | cons f rest ih => simp [levelsOfFields, ih, Nat.max_assoc]

theorem levelsOfFields_strings (entries : List (String × String)) :
    levelsOfFields (entries.map fun p => (p.1, .string p.2)) = 0 := by
  induction entries with
  | nil => rfl
  | cons p rest ih => simp [levelsOfFields, levels, ih]

/-! ## No numbers

A text with numbers in it is read differently, so that the printer is only undone for values without
any; an element has none. -/

theorem numberlessFields_append {fs gs : List (String × Json)} (hfs : NumberlessFields fs)
    (hgs : NumberlessFields gs) : NumberlessFields (fs ++ gs) := by
  induction fs with
  | nil => exact hgs
  | cons f rest ih => exact ⟨hfs.1, ih hfs.2⟩

theorem numberlessFields_strings (entries : List (String × String)) :
    NumberlessFields (entries.map fun p => (p.1, .string p.2)) := by
  induction entries with
  | nil => trivial
  | cons p rest ih => exact ⟨trivial, ih⟩

end Json

namespace Element

open Json

/-! ## The fields of an element

The form of an element is an object of at most four fields. Name and text are no deeper than the
object itself. -/

/-- The attributes as a field, which is left out if there are none. -/
def attributesField (attributes : KeyMap String String) : List (String × Json) :=
  if attributes.isEmpty then []
  else [("attributes", .object (attributes.entries.map fun p => (p.1, .string p.2)))]

def childrenField (children : List Element) : List (String × Json) :=
  if children.isEmpty then [] else [("children", .array (toJsonAll children))]

def fieldsOf (e : Element) : List (String × Json) :=
  [("name", .string e.name)] ++ attributesField e.attributes ++ childrenField e.children ++
    Json.optional "text" e.text .string

theorem toJson_eq (e : Element) : e.toJson = .object e.fieldsOf := by
  cases e
  rfl

theorem levelsOfFields_fieldsOf (e : Element) : levelsOfFields e.fieldsOf =
    max (levelsOfFields (attributesField e.attributes))
      (levelsOfFields (childrenField e.children)) := by
  have htext : levelsOfFields (Json.optional "text" e.text .string) = 0 := by
    cases e.text <;> rfl
  simp [fieldsOf, levelsOfFields_append, htext, levelsOfFields, levels]

mutual

/-- No number occurs in the JSON form of an element. -/
theorem numberless_toJson : ∀ e : Element, e.toJson.Numberless
  | ⟨name, attributes, children, text⟩ => by
    -- field by field; each is left out or holds texts only
    have hattributes : NumberlessFields (attributesField attributes) := by
      unfold attributesField
      split
      · trivial
      · exact ⟨numberlessFields_strings _, trivial⟩
    have hchildren : NumberlessFields (childrenField children) := by
      unfold childrenField
      split
      · trivial
      · exact ⟨numberlessItems_toJsonAll children, trivial⟩
    have htext : NumberlessFields (Json.optional "text" text .string) := by
      cases text with
      | none => trivial
      | some text => exact ⟨trivial, trivial⟩
    rw [toJson_eq]
    exact numberlessFields_append (numberlessFields_append ⟨trivial, hattributes⟩ hchildren) htext

theorem numberlessItems_toJsonAll : ∀ es : List Element, NumberlessItems (toJsonAll es)
  | [] => trivial
  | e :: rest => ⟨numberless_toJson e, numberlessItems_toJsonAll rest⟩

end

/-! ## Reading the fields

The reader goes through the fields from left to right and sets one part for each. Every lemma of
this section says what one field sets, starting from parts in which it is not set yet, and that it
fails where the reader would have to follow deeper than it does. -/

variable {depth : Nat} {p : Parts}

/-- The parts that are read of an element: what was left out is not set. -/
def partsOf (e : Element) : Parts where
  name := some e.name
  attributes := if e.attributes.isEmpty then none else some e.attributes
  children := if e.children.isEmpty then none else some e.children
  text := e.text.map some

/-- What was left out is put back. -/
theorem element?_partsOf (e : Element) : e.partsOf.element? = some e := by
  obtain ⟨name, attributes, children, text⟩ := e
  have hattributes : (if attributes.isEmpty then none else some attributes).getD ∅ =
      attributes := by
    split
    · next hempty => exact (KeyMap.ext_entries (List.isEmpty_iff.1 hempty)).symm
    · rfl
  have hchildren : (if children.isEmpty then none else some children).getD [] = children := by
    cases children <;> rfl
  have htext : (text.map some).getD none = text := by
    cases text <;> rfl
  simp only [partsOf, Parts.element?, Option.map_some, hattributes, hchildren, htext]

theorem ofFields_append (fs gs : List (String × Json)) :
    Draft.ofFields (fs ++ gs) = Draft.ofFields fs ++ Draft.ofFields gs := by
  induction fs with
  | nil => rfl
  | cons f rest ih => simp only [List.cons_append, Draft.ofFields, ih]

/-- Fields are read one part after the other. -/
theorem partsAt?_append (depth : Nat) (fs gs : List (Option String × Draft)) (p : Parts) :
    partsAt? depth (fs ++ gs) p = (partsAt? depth fs p).bind (partsAt? depth gs) := by
  induction fs generalizing p with
  | nil => rfl
  | cons f rest ih =>
    obtain ⟨key, v⟩ := f
    cases key with
    | none => rfl
    | some key =>
      have hrest : partsAt? depth (rest ++ gs) =
          fun p => (partsAt? depth rest p).bind (partsAt? depth gs) := funext ih
      simp only [List.cons_append, partsAt?, hrest]
      split_ifs <;> simp only [Option.bind_assoc]

/-- Attributes are one object of texts, which takes one level. -/
theorem attributesOf?_strings (depth : Nat) (attributes : KeyMap String String) :
    attributesOf? depth
        (.ofJson (.object (attributes.entries.map fun p => (p.1, .string p.2)))) =
      if depth < maxDepth then some attributes else none := by
  have hread : ∀ entries : List (String × String),
      (Draft.ofFields (entries.map fun p => (p.1, .string p.2))).mapM
        (fun p => do return ((← p.1), (← stringOf? p.2))) = some entries := by
    intro entries
    induction entries with
    | nil => rfl
    | cons p rest ih =>
      rw [List.map_cons, Draft.ofFields, List.mapM_cons, ih]
      rfl
  -- the entries were in order when they were written
  have hmap : KeyMap.ofList attributes.entries = attributes :=
    KeyMap.ext_entries (Entries.ofList_of_ascending attributes.ascending)
  rw [Draft.ofJson, attributesOf?, hread, Option.map_some, hmap]

/-- Attributes that were left out are not set. -/
theorem partsAt?_attributes (hdepth : depth ≤ maxDepth) (hp : p.attributes = none)
    (attributes : KeyMap String String) :
    partsAt? depth (Draft.ofFields (attributesField attributes)) p =
      if depth + levelsOfFields (attributesField attributes) ≤ maxDepth then
        some { p with attributes := if attributes.isEmpty then none else some attributes }
      else none := by
  unfold attributesField
  split
  · rw [if_pos (by simpa [levelsOfFields] using hdepth), ← hp]
    rfl
  · -- the field is there, and takes one level whatever it holds
    have hread : partsAt? depth [(some "attributes", .ofJson (.object
        (attributes.entries.map fun p => (p.1, .string p.2))))] p =
        (if depth < maxDepth then some attributes else none).bind p.setAttributes := by
      rw [← attributesOf?_strings]
      simp [partsAt?]
    have hlevels : levelsOfFields [("attributes", .object
        (attributes.entries.map fun p => (p.1, .string p.2)))] = 1 := by
      simp [levelsOfFields, levels, levelsOfFields_strings]
    have hset : p.setAttributes attributes = some { p with attributes := some attributes } := by
      simp [Parts.setAttributes, hp]
    rw [hlevels]
    refine hread.trans ?_
    by_cases hlt : depth < maxDepth
    · rw [if_pos hlt, if_pos (by omega), Option.bind_some, hset]
    · rw [if_neg hlt, if_neg (by omega), Option.bind_none]

/-- The children are read two levels further in than the element. -/
theorem partsAt?_children (hdepth : depth ≤ maxDepth) (hp : p.children = none)
    {children : List Element}
    (hread : depth + 1 ≤ maxDepth →
      elementsAt? (depth + 1) (Draft.ofItems (toJsonAll children)) =
        if depth + 1 + levelsOfItems (toJsonAll children) ≤ maxDepth then some children
        else none) :
    partsAt? depth (Draft.ofFields (childrenField children)) p =
      if depth + levelsOfFields (childrenField children) ≤ maxDepth then
        some { p with children := if children.isEmpty then none else some children }
      else none := by
  unfold childrenField
  split
  · rw [if_pos (by simpa [levelsOfFields] using hdepth), ← hp]
    rfl
  · -- the field is there, so its items are read one level deeper
    have hfield : partsAt? depth [(some "children", .ofJson (.array (toJsonAll children)))] p =
        (childrenAt? depth (.ofJson (.array (toJsonAll children)))).bind p.setChildren := by
      simp [partsAt?]
    have hlevels : levelsOfFields [("children", .array (toJsonAll children))] =
        levelsOfItems (toJsonAll children) + 1 := by
      simp [levelsOfFields, levels]
    have hset : p.setChildren children = some { p with children := some children } := by
      simp [Parts.setChildren, hp]
    rw [hlevels]
    refine hfield.trans ?_
    rw [Draft.ofJson, childrenAt?]
    by_cases hlt : depth < maxDepth
    · rw [if_pos hlt, hread hlt]
      by_cases hlevels : depth + 1 + levelsOfItems (toJsonAll children) ≤ maxDepth
      · rw [if_pos hlevels, if_pos (by omega), Option.bind_some, hset]
      · rw [if_neg hlevels, if_neg (by omega), Option.bind_none]
    · rw [if_neg hlt, if_neg (by omega), Option.bind_none]

/-- A text is set as written, an empty one as well. -/
theorem partsAt?_text (depth : Nat) (hp : p.text = none) (text : Option String) :
    partsAt? depth (Draft.ofFields (Json.optional "text" text .string)) p =
      some { p with text := text.map some } := by
  cases text with
  | none =>
    rw [Option.map_none, ← hp]
    rfl
  | some text =>
    simp [Json.optional, Draft.ofFields, Draft.ofJson, partsAt?, textOf?, Parts.setText, hp]

/-- All fields together: each is read unless the nesting of one of them is too deep. -/
theorem partsAt?_fieldsOf (hdepth : depth ≤ maxDepth) (e : Element)
    (hread : depth + 1 ≤ maxDepth →
      elementsAt? (depth + 1) (Draft.ofItems (toJsonAll e.children)) =
        if depth + 1 + levelsOfItems (toJsonAll e.children) ≤ maxDepth then some e.children
        else none) :
    partsAt? depth (Draft.ofFields e.fieldsOf) {} =
      if depth + levelsOfFields e.fieldsOf ≤ maxDepth then some e.partsOf else none := by
  have hname : partsAt? depth (Draft.ofFields [("name", .string e.name)]) {} =
      some { name := some e.name } := by
    simp [Draft.ofFields, Draft.ofJson, partsAt?, stringOf?, Parts.setName]
  -- the whole fits if both of the nested fields do
  have hmax : depth + max (levelsOfFields (attributesField e.attributes))
        (levelsOfFields (childrenField e.children)) ≤ maxDepth ↔
      depth + levelsOfFields (attributesField e.attributes) ≤ maxDepth ∧
        depth + levelsOfFields (childrenField e.children) ≤ maxDepth := by omega
  rw [levelsOfFields_fieldsOf, fieldsOf, ofFields_append, ofFields_append, ofFields_append,
    partsAt?_append, partsAt?_append, partsAt?_append, hname, Option.bind_some,
    partsAt?_attributes hdepth rfl]
  by_cases hattributes : depth + levelsOfFields (attributesField e.attributes) ≤ maxDepth
  · rw [if_pos hattributes, Option.bind_some, partsAt?_children hdepth rfl hread]
    by_cases hchildren : depth + levelsOfFields (childrenField e.children) ≤ maxDepth
    · rw [if_pos hchildren, Option.bind_some, partsAt?_text _ rfl,
        if_pos (hmax.2 ⟨hattributes, hchildren⟩)]
      rfl
    · rw [if_neg hchildren, if_neg fun h => hchildren (hmax.1 h).2]
      rfl
  · rw [if_neg hattributes, if_neg fun h => hattributes (hmax.1 h).1]
    rfl

/-! ## Reading the whole

Mutually over an element and its children, since a list of children is two levels inside of its
element: one for the object and one for the array. -/

mutual

/-- Inside `depth` arrays and objects an element is read back as far as the reader follows. -/
theorem ofDraftAt?_toJson : ∀ (e : Element) (depth : Nat), ofDraftAt? depth (.ofJson e.toJson) =
    if depth + e.toJson.levels ≤ maxDepth then some e else none
  -- the object of the element is the first level
  | ⟨name, attributes, children, text⟩, depth => by
    rw [toJson_eq, levels, Draft.ofJson, ofDraftAt?]
    by_cases hlt : depth < maxDepth
    · rw [if_pos hlt, partsAt?_fieldsOf hlt _ (elementsAt?_toJsonAll children (depth + 2))]
      split
      · rw [if_pos (by omega), Option.bind_some, element?_partsOf]
      · rw [if_neg (by omega), Option.bind_none]
    · rw [if_neg hlt, if_neg (by omega)]

theorem elementsAt?_toJsonAll : ∀ (es : List Element) (depth : Nat), depth ≤ maxDepth →
    elementsAt? depth (Draft.ofItems (toJsonAll es)) =
      if depth + levelsOfItems (toJsonAll es) ≤ maxDepth then some es else none
  | [], depth, hdepth => by
    rw [if_pos (by simpa [toJsonAll, levelsOfItems] using hdepth)]
    rfl
  | e :: rest, depth, hdepth => by
    have hmax : depth + max e.toJson.levels (levelsOfItems (toJsonAll rest)) ≤ maxDepth ↔
        depth + e.toJson.levels ≤ maxDepth ∧
          depth + levelsOfItems (toJsonAll rest) ≤ maxDepth := by omega
    rw [toJsonAll, Draft.ofItems, elementsAt?, ofDraftAt?_toJson e depth,
      elementsAt?_toJsonAll rest depth hdepth, levelsOfItems]
    by_cases he : depth + e.toJson.levels ≤ maxDepth
    · by_cases hrest : depth + levelsOfItems (toJsonAll rest) ≤ maxDepth
      · simp [he, hrest, hmax]
      · simp [he, hrest, hmax]
    · simp [he, hmax]

end

theorem readJson?_render (e : Element) : readJson? (Format.json.render e.toJson) =
    if e.toJson.levels ≤ maxDepth then some e else none := by
  rw [Format.render, readJson?, Draft.read?_pretty (numberless_toJson e), Option.bind_some,
    ofDraftAt?_toJson, Nat.zero_add]

/-! ## Files

A file is loaded by its extension, whatever the case of its letters, and a text that is written to a
file is there to be read. -/

variable {path extension : String}

theorem writingOf_of_extension (hpath : FilePath.extension? path = some extension)
    (hjson : extension.toLower = "json") : writingOf path = .json := by
  have hlower : Text.lowerCase extension = "json" :=
    (Text.lowerCase_eq_toLower extension).trans hjson
  rw [writingOf, hpath, Option.any_some, decide_eq_true hlower, if_pos rfl]

theorem load_of_look {look : String → Option FileTree} {e : Element}
    (hpath : writingOf path = .json)
    (hlook : look path = some (.ofText (Format.json.render e.toJson))) :
    load look path =
      if e.toJson.levels ≤ maxDepth then .ok e else .error (.malformed .json path) := by
  simp only [load, hlook, Option.bind_some, FileTree.text?_ofText, hpath, read?, readJson?_render]
  by_cases hlevels : e.toJson.levels ≤ maxDepth
  · rw [if_pos hlevels, if_pos hlevels]
  · rw [if_neg hlevels, if_neg hlevels]

/-- An element tree that is written to a JSON file is loaded from it as it was, exactly if its JSON
form nests at most 127 levels: wherever a path leads to the text, and after the text was written to
the path. -/
theorem load_of_write (e : Element) (hpath : FilePath.extension? path = some extension)
    (hjson : extension.toLower = "json") :
    (∀ look : String → Option FileTree,
      look path = some (.ofText (Format.json.render e.toJson)) →
        load look path =
          if e.toJson.levels ≤ 127 then .ok e else .error (.malformed .json path)) ∧
    ∀ s s' : FileSystem, s.tree.Ordered →
      s.write path (Format.json.render e.toJson) = (.ok (), s') →
        load s'.at? path =
          if e.toJson.levels ≤ 127 then .ok e else .error (.malformed .json path) := by
  have hwriting := writingOf_of_extension hpath hjson
  refine ⟨fun look hlook => load_of_look hwriting hlook, fun s s' hs hwrite => ?_⟩
  obtain ⟨place, hwritten⟩ := FileSystem.written_of_write hs hwrite
  refine load_of_look hwriting ?_
  rw [FileSystem.at?, hwritten.located, Option.bind_some, hwritten.text]

/-- A unit with an empty text beside an absent one, and names and texts that are escaped. -/
def quotedUnit : Element where
  name := "memb\"er"
  attributes := (∅ : KeyMap String String).insert "größe" "a\tb"
  children := [.ofText "url" "/käse\n{id}", .ofText "summary" "", ⟨"verb", ∅, [], none⟩]

theorem load_quotedUnit : ∃ s', (FileSystem.emptyIn "work").write "unit.JSON"
      (Format.json.render quotedUnit.toJson) = (.ok (), s') ∧
    load s'.at? "unit.JSON" = .ok quotedUnit := by
  have hpath : FilePath.Beside "unit.JSON" "unit.JSON" :=
    FilePath.beside_name (by decide +kernel) (by decide +kernel) (by decide +kernel)
  have hflat := FileSystem.flat_emptyIn "work"
  have hwrite := hflat.write hpath (Format.json.render quotedUnit.toJson)
  refine ⟨_, hwrite, ?_⟩
  have hextension : FilePath.extension? "unit.JSON" = some "JSON" := by decide +kernel
  have hjson : "JSON".toLower = "json" := by decide +kernel
  have hload := (load_of_write quotedUnit hextension hjson).2 _ _ hflat.ordered hwrite
  rw [hload, if_pos (by decide +kernel)]

end Element

end EndpointDocs
