import EndpointDocs.Proofs.Element.Walking
import EndpointDocs.Variant
import Mathlib.Data.List.Nodup
import Mathlib.Data.List.Perm.Basic

/-!
# The variants of a unit

Each categorizer of a configuration is listed once, where it is declared first, and none is empty.
So a named variant is listed for a unit once for each tag of its own categorizer with its title,
whatever other categorizers there are (`filter_variantsForUnit`), and the default variant exactly
once. All together the named variants are the tags of the unit with a declared name, taken name by
name (`variantsForUnit_listsTags`).
-/

namespace EndpointDocs

/-! ## Distinct items

The list of categorizers is a list without repetitions, made by going through the declared names.
Its order is that of first occurrences, which is said with `List.idxOf`. -/

section Distinct

variable {α : Type} [DecidableEq α] {items : List α} {a : α}

/-- Add an item behind the known ones, unless it is known. -/
def addNew (known : List α) (a : α) : List α := if a ∈ known then known else known ++ [a]

/-- A known item is not added. -/
theorem nodup_foldl_addNew {known : List α} (h : known.Nodup) :
    (items.foldl addNew known).Nodup := by
  induction items generalizing known with
  | nil => exact h
  | cons a rest ih =>
    refine ih ?_
    unfold addNew
    split
    · exact h
    · next ha => exact List.nodup_append_comm.1 (List.nodup_cons.2 ⟨ha, h⟩)

/-- No item is lost. -/
theorem mem_foldl_addNew {known : List α} :
    a ∈ items.foldl addNew known ↔ a ∈ known ∨ a ∈ items := by
  induction items generalizing known with
  | nil => exact (or_iff_left List.not_mem_nil).symm
  | cons b rest ih =>
    rw [List.foldl_cons, ih, List.mem_cons, ← or_assoc]
    refine or_congr_left ?_
    unfold addNew
    split
    · next hb =>
      refine (or_iff_left_of_imp ?_).symm
      rintro rfl
      exact hb
    · rw [List.mem_append, List.mem_singleton]

/-- A new item is first met behind all that were met before. The induction is on the items that are
left; `met` are those in front of them. -/
theorem pairwise_foldl_addNew {known met : List α} (hmem : ∀ b, b ∈ known ↔ b ∈ met)
    (h : known.Pairwise fun a b => (met ++ items).idxOf a < (met ++ items).idxOf b) :
    (items.foldl addNew known).Pairwise fun a b =>
      (met ++ items).idxOf a < (met ++ items).idxOf b := by
  induction items generalizing known met with
  | nil => exact h
  | cons a rest ih =>
    -- the item is moved from what comes to what was met
    have hall : met ++ a :: rest = (met ++ [a]) ++ rest := by simp
    rw [List.foldl_cons]
    unfold addNew
    split
    · next ha =>
      rw [hall] at h ⊢
      refine ih (fun b => ?_) h
      have hsame : b = a → b ∈ met := by
        rintro rfl
        exact (hmem b).1 ha
      simp only [hmem, List.mem_append, List.mem_singleton]
      tauto
    · next ha =>
      -- a new item is met for the first time here, and all known ones were met before
      have hnew : (met ++ a :: rest).idxOf a = met.length := by
        rw [List.idxOf_append_of_notMem fun hmet => ha ((hmem a).2 hmet), List.idxOf_cons_self,
          Nat.add_zero]
      have hold : ∀ b ∈ known, (met ++ a :: rest).idxOf b < met.length := by
        intro b hb
        have hmet := (hmem b).1 hb
        rw [List.idxOf_append_of_mem hmet]
        exact List.idxOf_lt_length_iff.2 hmet
      have hnext : (known ++ [a]).Pairwise fun b c =>
          (met ++ a :: rest).idxOf b < (met ++ a :: rest).idxOf c := by
        refine List.pairwise_append.2 ⟨h, List.pairwise_singleton _ a, fun b hb c hc => ?_⟩
        rw [List.mem_singleton.1 hc, hnew]
        exact hold b hb
      rw [hall] at hnext ⊢
      refine ih (fun b => ?_) hnext
      simp only [hmem, List.mem_append]

/-- Items come in the order in which they are first met. -/
theorem pairwise_distinct (items : List α) :
    (distinct items).Pairwise fun a b => items.idxOf a < items.idxOf b := by
  have hstart : ∀ b : α, b ∈ ([] : List α) ↔ b ∈ [] := fun _ => Iff.rfl
  exact pairwise_foldl_addNew hstart .nil

theorem nodup_distinct (items : List α) : (distinct items).Nodup :=
  nodup_foldl_addNew List.nodup_nil

theorem mem_distinct : a ∈ distinct items ↔ a ∈ items :=
  mem_foldl_addNew.trans (or_iff_right List.not_mem_nil)

end Distinct

/-! ## Categorizers

Each name is there once, and no name is empty; so no variant of a categorizer is the default one. -/

theorem nodup_categorizers (config : Option Element) : (categorizers config).Nodup :=
  nodup_distinct _

/-- Names without a text are not declared. -/
theorem ne_empty_of_mem_categorizers {config : Option Element} {categorizer : String}
    (h : categorizer ∈ categorizers config) : categorizer ≠ "" := by
  obtain ⟨e, -, he⟩ := List.mem_filterMap.1 (mem_distinct.1 h)
  unfold Element.nonEmptyText? at he
  split at he
  · cases he
  · next hne =>
    cases he
    exact hne

/-! ## Variants

For one categorizer the variants are found in document order, one for each tag, so a title that
occurs twice is listed twice. How they come together for all categorizers needs only that no
categorizer is listed twice. -/

/-- The variants of the tags of one categorizer. -/
def variantsFor (unit : Element) (categorizer : String) : List Variant :=
  (unit.descendants.filter fun e => e.name = categorizer).map fun e => ⟨categorizer, e.ownText⟩

variable {unit : Element} {cs : List String} {v : Variant} {categorizer : String}

/-- The default variant comes first. -/
theorem variantsForUnit_eq :
    variantsForUnit unit cs = .default :: cs.flatMap (variantsFor unit) := rfl

/-- The categorizer of the variant is the one whose tags were asked for. -/
theorem categorizer_of_mem_variantsFor (h : v ∈ variantsFor unit categorizer) :
    v.categorizer = categorizer := by
  obtain ⟨e, -, rfl⟩ := List.mem_map.1 h
  rfl

/-- A variant that is not the default one has a declared categorizer. -/
theorem eq_default_or_mem_of_mem_variantsForUnit (h : v ∈ variantsForUnit unit cs) :
    v = .default ∨ v.categorizer ∈ cs := by
  rcases List.mem_cons.1 h with h | h
  · exact .inl h
  · obtain ⟨c, hc, hv⟩ := List.mem_flatMap.1 h
    exact .inr (categorizer_of_mem_variantsFor hv ▸ hc)

/-- The tags of one categorizer name variants of this categorizer only. -/
theorem filter_variantsFor (unit : Element) (categorizer other : String) :
    (variantsFor unit categorizer).filter (·.categorizer = other) =
      if categorizer = other then variantsFor unit categorizer else [] := by
  split
  · next h =>
    refine List.filter_eq_self.2 fun v hv => ?_
    rw [categorizer_of_mem_variantsFor hv, decide_eq_true h]
  · next h =>
    refine List.filter_eq_nil_iff.2 fun v hv => ?_
    rw [categorizer_of_mem_variantsFor hv, decide_eq_true_eq]
    exact h

/-- The variants of a categorizer stand together. The induction is on the categorizers, of which
this one is met once. -/
theorem filter_flatMap_variantsFor (hnodup : cs.Nodup) (categorizer : String) :
    (cs.flatMap (variantsFor unit)).filter (·.categorizer = categorizer) =
      if categorizer ∈ cs then variantsFor unit categorizer else [] := by
  induction cs with
  | nil => rfl
  | cons c rest ih =>
    obtain ⟨hc, hrest⟩ := List.nodup_cons.1 hnodup
    rw [List.flatMap_cons, List.filter_append, ih hrest, filter_variantsFor]
    by_cases hsame : c = categorizer
    · subst hsame
      rw [if_pos rfl, if_neg hc, if_pos List.mem_cons_self, List.append_nil]
    · simp only [if_neg hsame, List.nil_append, List.mem_cons, Ne.symm hsame, false_or]

/-- How often a variant is listed for a unit depends on its own categorizer only. -/
theorem filter_eq_flatMap_variantsFor (hnodup : cs.Nodup) :
    (cs.flatMap (variantsFor unit)).filter (· = v) =
      if v.categorizer ∈ cs then (variantsFor unit v.categorizer).filter (· = v) else [] := by
  have hfirst : (cs.flatMap (variantsFor unit)).filter (· = v) =
      ((cs.flatMap (variantsFor unit)).filter (·.categorizer = v.categorizer)).filter (· = v) := by
    rw [List.filter_filter]
    refine List.filter_congr fun w _ => ?_
    by_cases h : w = v <;> simp [h]
  rw [hfirst, filter_flatMap_variantsFor hnodup]
  split <;> rfl

/-- Two configurations that both declare the categorizer of a variant list it alike. -/
theorem filter_variantsForUnit {cs' : List String} (hnodup : cs.Nodup) (hnodup' : cs'.Nodup)
    (h : v.categorizer ∈ cs ↔ v.categorizer ∈ cs') :
    (variantsForUnit unit cs).filter (· = v) = (variantsForUnit unit cs').filter (· = v) := by
  rw [variantsForUnit_eq, variantsForUnit_eq, List.filter_cons, List.filter_cons,
    filter_eq_flatMap_variantsFor hnodup, filter_eq_flatMap_variantsFor hnodup']
  simp only [h]

/-! ## All variants of a unit

The statement about the whole list counts the tags of the unit, wherever they stand, the unit itself
included. Categorizers are named there by the configuration as it was written, repetitions and all.
-/

/-- The variant of a tag: its name and its text. -/
def Variant.ofTag (e : Element) : Variant := ⟨e.name, e.ownText⟩

/-- The names that a configuration declares as categorizers, each as often as it is declared. -/
def declaredCategorizers (config : Option Element) : List String :=
  (((config.toList.flatMap (·.childrenNamed "variant")).flatMap (·.childrenNamed "name")).map
    Element.ownText).filter (· ≠ "")

/-- What a list says of the tags of a unit, given the names that are declared. -/
structure ListsTags (declared : List String) (unit : Element) (named : List Variant) : Prop where
  /-- The default variant is not among them. -/
  notDefault : Variant.default ∉ named
  /-- There is one variant for each tag with a declared name, at any depth. -/
  perm : named.Perm ((unit.preorder.filter fun e => e.name ∈ declared).map .ofTag)
  /-- The names come in the order in which they are first declared. -/
  byName : named.Pairwise fun v w =>
    declared.idxOf v.categorizer ≤ declared.idxOf w.categorizer
  /-- The tags of one name come in document order. -/
  inOrder : ∀ name ∈ declared, (named.filter fun v => v.categorizer = name) =
    (unit.preorder.filter fun e => e.name = name).map .ofTag

/-- Repetitions are what is taken away. -/
theorem categorizers_eq (config : Option Element) :
    categorizers config = distinct (declaredCategorizers config) := by
  have htext : ∀ es : List Element, es.filterMap Element.nonEmptyText? =
      (es.map Element.ownText).filter (· ≠ "") := by
    intro es
    rw [List.filter_map, ← List.filterMap_eq_map, List.filterMap_filter]
    refine List.filterMap_congr fun e _ => ?_
    simp [Element.nonEmptyText?]
  cases config with
  | none => rfl
  | some config => simp [categorizers, declaredCategorizers, htext]

/-- All elements of the unit in document order, by their names. -/
theorem variantsFor_eq (unit : Element) (categorizer : String) :
    variantsFor unit categorizer =
      (unit.preorder.filter fun e => e.name = categorizer).map .ofTag := by
  rw [variantsFor, Element.descendants_eq]
  refine List.map_congr_left fun e he => ?_
  have hname : e.name = categorizer := by simpa using (List.mem_filter.1 he).2
  rw [Variant.ofTag, hname]

/-- Taking the items key by key loses none and takes none twice. The induction is on the keys. -/
theorem flatMap_filter_perm {α κ : Type} [DecidableEq κ] {keys : List κ} (hnodup : keys.Nodup)
    (key : α → κ) (items : List α) :
    (keys.flatMap fun k => items.filter fun a => key a = k).Perm
      (items.filter fun a => key a ∈ keys) := by
  induction keys with
  | nil => simp
  | cons k rest ih =>
    obtain ⟨hk, hrest⟩ := List.nodup_cons.1 hnodup
    -- the items of the first key, and those of the other keys
    have hsplit := List.filter_append_perm (fun a => decide (key a = k))
      (items.filter fun a => key a ∈ k :: rest)
    rw [List.filter_filter, List.filter_filter] at hsplit
    have hfirst : items.filter (fun a => decide (key a = k) && decide (key a ∈ k :: rest)) =
        items.filter fun a => key a = k := by
      refine List.filter_congr fun a _ => ?_
      by_cases h : key a = k <;> simp [h]
    -- no item has the first key and one of the others, because the keys differ
    have hothers : items.filter (fun a => !decide (key a = k) && decide (key a ∈ k :: rest)) =
        items.filter fun a => key a ∈ rest := by
      refine List.filter_congr fun a _ => ?_
      by_cases h : key a = k <;> simp [h, hk]
    rw [hfirst, hothers] at hsplit
    rw [List.flatMap_cons]
    exact ((ih hrest).append_left _).trans hsplit

/-- A unit is built for the default variant and once for each tag in it whose name is declared. -/
theorem variantsForUnit_listsTags (config : Option Element) (unit : Element) :
    ∃ named, variantsForUnit unit (categorizers config) = .default :: named ∧
      ListsTags (declaredCategorizers config) unit named ∧
      named.length = unit.preorder.countP fun e => e.name ∈ declaredCategorizers config := by
  have hnodup := nodup_categorizers config
  have hmem : ∀ name, name ∈ categorizers config ↔ name ∈ declaredCategorizers config := by
    intro name
    rw [categorizers_eq, mem_distinct]
  -- every tag is met once, under its own name
  have hperm : ((categorizers config).flatMap (variantsFor unit)).Perm
      ((unit.preorder.filter fun e => e.name ∈ declaredCategorizers config).map .ofTag) := by
    have htags : (categorizers config).flatMap (variantsFor unit) =
        ((categorizers config).flatMap fun c => unit.preorder.filter fun e => e.name = c).map
          .ofTag := by
      rw [List.map_flatMap]
      exact List.flatMap_congr fun c _ => variantsFor_eq unit c
    rw [htags]
    simpa only [hmem] using
      (flatMap_filter_perm hnodup Element.name unit.preorder).map Variant.ofTag
  refine ⟨_, variantsForUnit_eq, ⟨fun hdefault => ?_, hperm, ?_, fun name hname => ?_⟩, ?_⟩
  · -- the default variant stands for no tag, as no tag has an empty name
    obtain ⟨c, hc, hv⟩ := List.mem_flatMap.1 hdefault
    exact ne_empty_of_mem_categorizers hc (categorizer_of_mem_variantsFor hv).symm
  · refine List.pairwise_flatMap.2 ⟨fun c _ => ?_, ?_⟩
    · -- within one categorizer the order of tags does not matter here
      refine List.pairwise_of_forall_mem_list fun v hv w hw => ?_
      have hsame : v.categorizer = w.categorizer :=
        (categorizer_of_mem_variantsFor hv).trans (categorizer_of_mem_variantsFor hw).symm
      exact Nat.le_of_eq (congrArg (declaredCategorizers config).idxOf hsame)
    · rw [categorizers_eq]
      refine (pairwise_distinct _).imp fun hlt v hv w hw => ?_
      rw [categorizer_of_mem_variantsFor hv, categorizer_of_mem_variantsFor hw]
      exact Nat.le_of_lt hlt
  · rw [filter_flatMap_variantsFor hnodup, if_pos ((hmem name).2 hname), variantsFor_eq]
  · rw [hperm.length_eq, List.length_map, List.countP_eq_length_filter]

end EndpointDocs
