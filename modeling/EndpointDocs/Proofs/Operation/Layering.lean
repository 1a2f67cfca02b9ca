import EndpointDocs.Proofs.Operation.Filling
import EndpointDocs.Proofs.Operation.WellFormed

/-!
# Layers of defaults

Filling merges two operations, and the left one wins: each field of the result is the merge of the
two fields (`fillUnsetFrom_eq`), and the response of a code is the merge of the two responses of
that code (`get?_responses_fillUnsetFrom`). So it does not matter how several layers of defaults are
grouped (`fillUnsetFrom_assoc`), and a layer that was merged adds nothing when it is merged again.
-/

namespace EndpointDocs

/-! ## Parameters

Parameters are told apart by name and location. A layer is added one by one, and a key that is known
is passed over; so the keys form a union, and associativity is proved by moving one parameter at a
time. -/

namespace Parameter

/-- The parameters with one more, unless there is one of its key. -/
def addTo (known : List Parameter) (p : Parameter) : List Parameter :=
  if ∃ q ∈ known, q.key = p.key then known else known ++ [p]

variable {known layer more : List Parameter} {p q : Parameter}

/-- The key is known afterwards, whether the parameter was added or not. -/
theorem key_mem_addTo {k : String × ParameterLocation} :
    k ∈ (addTo known p).map key ↔ k ∈ known.map key ∨ k = p.key := by
  unfold addTo
  split
  · next hp =>
    constructor
    · exact .inl
    · rintro (hk | rfl)
      · exact hk
      · exact List.mem_map.2 hp
  · rw [List.map_append, List.mem_append, List.map_singleton, List.mem_singleton]

/-- The keys of both are there, and no others. -/
theorem key_mem_foldl_addTo {k : String × ParameterLocation} :
    k ∈ (layer.foldl addTo known).map key ↔ k ∈ known.map key ∨ k ∈ layer.map key := by
  induction layer generalizing known with
  | nil => simp
  | cons p rest ih =>
    rw [List.foldl_cons, ih, key_mem_addTo, List.map_cons, List.mem_cons, or_assoc]

/-- Adding a layer with one parameter more is adding the layer and then the parameter. -/
theorem foldl_addTo_addTo (known layer : List Parameter) (p : Parameter) :
    (addTo layer p).foldl addTo known = addTo (layer.foldl addTo known) p := by
  by_cases hp : ∃ q ∈ layer, q.key = p.key
  · have hknown : p.key ∈ (layer.foldl addTo known).map key :=
      key_mem_foldl_addTo.2 (.inr (List.mem_map.2 hp))
    rw [addTo, if_pos hp, addTo, if_pos (List.mem_map.1 hknown)]
  · rw [addTo, if_neg hp, List.foldl_append, List.foldl_cons, List.foldl_nil]

/-- The induction is on the last layer, whose parameters move to the middle one by one. -/
theorem foldl_addTo_assoc (known layer last : List Parameter) :
    (last.foldl addTo layer).foldl addTo known = last.foldl addTo (layer.foldl addTo known) := by
  induction last generalizing layer with
  | nil => rfl
  | cons p rest ih => rw [List.foldl_cons, ih, foldl_addTo_addTo, List.foldl_cons]

/-- Nothing is added to parameters that have all the keys. -/
theorem foldl_addTo_of_known (h : ∀ p ∈ layer, p.key ∈ known.map key) :
    layer.foldl addTo known = known := by
  induction layer with
  | nil => rfl
  | cons p rest ih =>
    have hp : addTo known p = known := if_pos (List.mem_map.1 (h p List.mem_cons_self))
    rw [List.foldl_cons, hp]
    exact ih fun q hq => h q (List.mem_cons_of_mem _ hq)

/-- What was there stays. -/
theorem subset_foldl_addTo : known ⊆ layer.foldl addTo known := by
  induction layer generalizing known with
  | nil => exact List.Subset.refl _
  | cons p rest ih =>
    refine List.Subset.trans ?_ ih
    unfold addTo
    split
    · exact List.Subset.refl _
    · exact List.subset_append_left _ _

/-- Of the parameters of a new key the first one is added. The induction is on the layer; what
stands in front of the parameter has other keys. -/
theorem mem_foldl_addTo_of_find? (hnew : p.key ∉ known.map key)
    (hfirst : layer.find? (fun q => q.key = p.key) = some p) : p ∈ layer.foldl addTo known := by
  induction layer generalizing known with
  | nil => cases hfirst
  | cons q rest ih =>
    rw [List.foldl_cons]
    -- the first one of the key is added, as the key is new; others before it have other keys
    by_cases hq : q.key = p.key
    · rw [List.find?_cons_of_pos (by simpa using hq)] at hfirst
      cases hfirst
      have hadded : p ∈ addTo known p := by
        rw [addTo, if_neg (hnew ∘ List.mem_map.2)]
        exact List.mem_append_right _ (List.mem_singleton_self p)
      exact subset_foldl_addTo hadded
    · rw [List.find?_cons_of_neg (by simpa using hq)] at hfirst
      refine ih (fun hmem => ?_) hfirst
      rcases key_mem_addTo.1 hmem with hmem | hmem
      · exact hnew hmem
      · exact hq hmem.symm

/-- If no key is repeated, every parameter is the first one of its key. -/
theorem find?_key_of_nodup (hdistinct : (layer.map key).Nodup) (hp : p ∈ layer) :
    layer.find? (fun q => q.key = p.key) = some p := by
  obtain ⟨q, hq⟩ : ∃ q, layer.find? (fun q => q.key = p.key) = some q := by
    rw [← Option.isSome_iff_exists, List.find?_isSome]
    exact ⟨p, hp, by simp⟩
  have hkey : q.key = p.key := by simpa using List.find?_some hq
  obtain rfl := List.inj_on_of_nodup_map hdistinct (List.mem_of_find?_eq_some hq) hp hkey
  exact hq

end Parameter

/-! ## Responses

Two responses of one code are not merged field by field: the first one keeps its media, and takes
the description of the other if its own is empty. -/

namespace Response

/-- The response of a code in two layers of which the first one wins. -/
def layered : Option Response → Option Response → Option Response
  | none, r => r
  | some known, none => some known
  | some known, some r => some (known.describedBy r)

/-- The response behind that of another layer, if there is any. -/
def behind (r : Response) : Option Response → Response
  | none => r
  | some known => known.describedBy r

/-- The first description that is not empty. -/
theorem describedBy_assoc (r s t : Response) :
    (r.describedBy s).describedBy t = r.describedBy (s.describedBy t) := by
  by_cases hr : r.description = ""
  · by_cases hs : s.description = "" <;> simp [describedBy, hr, hs]
  · simp [describedBy, hr]

theorem describedBy_self (r : Response) : r.describedBy r = r := by
  unfold describedBy
  split <;> rfl

/-- An empty layer is passed by on either side. -/
theorem layered_assoc (r s t : Option Response) :
    layered (layered r s) t = layered r (layered s t) := by
  cases r with
  | none => rfl
  | some r =>
    cases s with
    | none => rfl
    | some s =>
      cases t with
      | none => rfl
      | some t => exact congrArg some (describedBy_assoc r s t)

theorem layered_self (r : Option Response) : layered r r = r := by
  cases r with
  | none => rfl
  | some r => exact congrArg some (describedBy_self r)

end Response

/-! ## Operations

The fields are independent of each other, so each law about operations is a law about each field.
Only the list of parameters and the map of responses need more than a case on what is unset. -/

namespace Operation

variable {op defaults : Operation}

theorem addParameter_eq (op : Operation) (p : Parameter) :
    op.addParameter p = { op with parameters := Parameter.addTo op.parameters p } := by
  unfold addParameter Parameter.addTo
  simp only [hasParameter_iff, List.mem_map]
  show (if ∃ q ∈ op.parameters, q.key = p.key then op else _) = _
  split <;> rfl

/-- Adding parameters touches the parameters only. -/
theorem foldl_addParameter_eq (parameters : List Parameter) (op : Operation) :
    parameters.foldl addParameter op =
      { op with parameters := parameters.foldl Parameter.addTo op.parameters } := by
  induction parameters generalizing op with
  | nil => rfl
  | cons p rest ih => rw [List.foldl_cons, ih, addParameter_eq, List.foldl_cons]

/-- The responses with those of a layer. -/
def addResponses (known layer : KeyMap String Response) : KeyMap String Response :=
  layer.entries.foldl (fun m e => m.alter e.1 e.2.behind) known

/-- And adding responses the responses. -/
theorem foldl_addResponse_eq (layer : List (String × Response)) (op : Operation) :
    layer.foldl (fun op e => op.addResponse e.1 e.2) op =
      { op with responses := layer.foldl (fun m e => m.alter e.1 e.2.behind) op.responses } := by
  induction layer generalizing op with
  | nil => rfl
  | cons e rest ih =>
    rw [List.foldl_cons, ih, List.foldl_cons]
    rfl

/-- Filling an operation, field by field. -/
theorem fillUnsetFrom_eq (op defaults : Operation) :
    op.fillUnsetFrom defaults = { op with
      summary := op.summary <|> defaults.summary
      description := op.description <|> defaults.description
      tags := if op.tags.isEmpty then defaults.tags else op.tags
      parameters := defaults.parameters.foldl Parameter.addTo op.parameters
      requestBody := op.requestBody <|> defaults.requestBody
      responses := addResponses op.responses defaults.responses } := by
  unfold fillUnsetFrom
  dsimp only
  rw [foldl_addParameter_eq, foldl_addResponse_eq]
  rfl

/-- No code is twice in a map, so the fold meets each one once. -/
theorem get?_addResponses (known layer : KeyMap String Response) (code : String) :
    (addResponses known layer).get? code =
      Response.layered (known.get? code) (layer.get? code) := by
  rw [addResponses, KeyMap.get?_foldl_alter _ layer.ascending]
  show _ = Response.layered _ (Entries.find? code layer.entries)
  cases Entries.find? code layer.entries <;> cases known.get? code <;> rfl

theorem get?_responses_fillUnsetFrom (op defaults : Operation) (code : String) :
    (op.fillUnsetFrom defaults).responses.get? code =
      Response.layered (op.responses.get? code) (defaults.responses.get? code) := by
  rw [fillUnsetFrom_eq, get?_addResponses]

/-- Maps are equal if they hold the same under each code. -/
theorem addResponses_assoc (l m n : KeyMap String Response) :
    addResponses (addResponses l m) n = addResponses l (addResponses m n) :=
  KeyMap.ext_get? fun code => by simp only [get?_addResponses, Response.layered_assoc]

theorem addResponses_self (m : KeyMap String Response) : addResponses m m = m :=
  KeyMap.ext_get? fun code => by rw [get?_addResponses, Response.layered_self]

/-! ## Laws

Associativity says that layers of defaults may be combined before they are known to be needed, and
idempotence that a layer which is read twice does no harm. -/

/-- Layers may be merged from either end. -/
theorem fillUnsetFrom_assoc (a b c : Operation) :
    (a.fillUnsetFrom b).fillUnsetFrom c = a.fillUnsetFrom (b.fillUnsetFrom c) := by
  have hoption : ∀ {α : Type} (x y z : Option α), ((x <|> y) <|> z) = (x <|> (y <|> z)) := by
    intro α x y z
    cases x <;> rfl
  have htags : (if (if a.tags.isEmpty then b.tags else a.tags).isEmpty then c.tags
      else if a.tags.isEmpty then b.tags else a.tags) =
      if a.tags.isEmpty then if b.tags.isEmpty then c.tags else b.tags else a.tags := by
    by_cases h : a.tags.isEmpty = true
    · simp only [h, if_true]
    · simp only [h, if_false, Bool.false_eq_true]
  simp only [fillUnsetFrom_eq, hoption, htags, Parameter.foldl_addTo_assoc, addResponses_assoc]

/-- A layer adds nothing to itself, even if it repeats a key. -/
theorem fillUnsetFrom_self (b : Operation) : b.fillUnsetFrom b = b := by
  have hoption : ∀ {α : Type} (x : Option α), (x <|> x) = x := by
    intro α x
    cases x <;> rfl
  have hparameters : b.parameters.foldl Parameter.addTo b.parameters = b.parameters :=
    Parameter.foldl_addTo_of_known fun p hp => List.mem_map_of_mem hp
  rw [fillUnsetFrom_eq, hparameters, addResponses_self, hoption, hoption, hoption, ite_self]

/-- What a layer documents under a key that the operation lacks stands in the other operation. Of
several parameters of one key in the layer it is the first one. -/
structure Supplied (op layer other : Operation) : Prop where
  parameters : ∀ p ∈ layer.parameters, op.hasParameter p.name p.location = false →
    other.hasParameter p.name p.location = true ∧
      ∃ q ∈ other.parameters, layer.parameters.find? (fun q => q.key = p.key) = some q
  distinct : (layer.parameters.map Parameter.key).Nodup → ∀ p ∈ layer.parameters,
    op.hasParameter p.name p.location = false → p ∈ other.parameters
  responses : ∀ code r, layer.responses.get? code = some r → op.responses.get? code = none →
    other.responses.get? code = some r

/-- The parameters of the layer are found behind those of the operation. -/
theorem supplied_fillUnsetFrom (op layer : Operation) :
    op.Supplied layer (op.fillUnsetFrom layer) := by
  -- the first parameter of its key is the one that is added
  have hfirst : ∀ p ∈ layer.parameters, ∀ q, op.hasParameter p.name p.location = false →
      layer.parameters.find? (fun q => q.key = p.key) = some q →
      q ∈ (op.fillUnsetFrom layer).parameters := by
    intro p hp q hnew hq
    have hkey : q.key = p.key := by simpa using List.find?_some hq
    rw [fillUnsetFrom_eq]
    apply Parameter.mem_foldl_addTo_of_find?
    · rw [hkey]
      exact fun hmem => absurd (hasParameter_iff.2 hmem) (by simp [hnew])
    · rw [hkey]
      exact hq
  refine ⟨fun p hp hnew => ⟨?_, ?_⟩, fun hdistinct p hp hnew => ?_, fun code r hr hnone => ?_⟩
  · rw [hasParameter_iff, fillUnsetFrom_eq]
    exact Parameter.key_mem_foldl_addTo.2 (.inr (List.mem_map_of_mem hp))
  · obtain ⟨q, hq⟩ := Option.isSome_iff_exists.1
      (List.find?_isSome.2 ⟨p, hp, decide_eq_true rfl⟩ :
        (layer.parameters.find? fun q => q.key = p.key).isSome = true)
    exact ⟨q, hfirst p hp q hnew hq, hq⟩
  · exact hfirst p hp p hnew (Parameter.find?_key_of_nodup hdistinct hp)
  · rw [get?_responses_fillUnsetFrom, hnone, hr]
    rfl

/-- Filling is a merge in which the left operation wins. -/
theorem fillUnsetFrom_leftBiased (a b c : Operation) :
    (a.fillUnsetFrom b).fillUnsetFrom c = a.fillUnsetFrom (b.fillUnsetFrom c) ∧
      (a.fillUnsetFrom b).fillUnsetFrom b = a.fillUnsetFrom b ∧
      a.KeptIn (a.fillUnsetFrom b) ∧ a.Supplied b (a.fillUnsetFrom b) := by
  refine ⟨fillUnsetFrom_assoc a b c, ?_, keptIn_fillUnsetFrom a b, supplied_fillUnsetFrom a b⟩
  rw [fillUnsetFrom_assoc, fillUnsetFrom_self]

end Operation

end EndpointDocs
