import EndpointDocs.OperationId
import EndpointDocs.Proofs.Operation.References
import EndpointDocs.Text.Ascii

/-!
# Well-formed operations

What every operation keeps while it is built (`Operation.WellFormed`): its parameters and tags are
distinct and named, its responses have status codes, and its request body has content. Adding to a
well-formed operation and filling it from another one give a well-formed operation again. An
operation is published under a path and a method when its responses are described as well
(`Operation.Published`).
-/

namespace EndpointDocs

/-- `default`, or three digits for a number from 100 to 599. -/
def IsResponseCode (code : String) : Prop :=
  code = "default" ∨ ∃ a b c : Char, code.toList = [a, b, c] ∧
    (a.isDigit = true ∧ b.isDigit = true ∧ c.isDigit = true) ∧
    100 ≤ 100 * Text.digitValue a + 10 * Text.digitValue b + Text.digitValue c ∧
    100 * Text.digitValue a + 10 * Text.digitValue b + Text.digitValue c ≤ 599

/-- What makes a parameter the same as another one. -/
def Parameter.key (p : Parameter) : String × ParameterLocation := (p.name, p.location)

structure Parameter.WellFormed (p : Parameter) : Prop where
  named : p.name ≠ ""
  trimmed : Text.trim p.name = p.name
  filled : p.location = .path → p.required = true

structure RequestBody.WellFormed (body : RequestBody) : Prop where
  content : ∃ name media, body.content.get? name = some media
  flagged : ∃ flag, body.required = some flag

namespace Operation

structure WellFormed (op : Operation) : Prop where
  distinct : (op.parameters.map Parameter.key).Nodup
  parameters : ∀ p ∈ op.parameters, p.WellFormed
  distinctTags : op.tags.Nodup
  tags : ∀ tag ∈ op.tags, tag ≠ ""
  codes : ∀ code r, op.responses.get? code = some r → IsResponseCode code
  body : ∀ body, op.requestBody = some body → body.WellFormed

/-- The operation of a path and a method in a document. -/
structure Published (path : String) (method : Method) (op : Operation) : Prop where
  id : op.id = OperationId.generate path method
  method : op.method = method
  wellFormed : op.WellFormed
  described : ∀ code r, op.responses.get? code = some r → r.description ≠ ""

variable {op other : Operation}

namespace WellFormed

/-- An operation without documentation. -/
theorem bare (id : String) (method : Method) : WellFormed { id, method } where
  distinct := .nil
  parameters _ h := nomatch h
  distinctTags := .nil
  tags _ h := nomatch h
  codes _ _ h := nomatch h
  body _ h := nomatch h

theorem texts (h : op.WellFormed) (summary description : Option String) :
    WellFormed { op with summary, description } :=
  ⟨h.distinct, h.parameters, h.distinctTags, h.tags, h.codes, h.body⟩

theorem withTags {tags : List String} (h : op.WellFormed) (hdistinct : tags.Nodup)
    (htags : ∀ tag ∈ tags, tag ≠ "") : WellFormed { op with tags } :=
  { h with distinctTags := hdistinct, tags := htags }

theorem withBody {body : RequestBody} (h : op.WellFormed) (hbody : body.WellFormed) :
    WellFormed { op with requestBody := some body } where
  __ := h
  body _ hsome := by
    cases hsome
    exact hbody

/-- A change of the response of one code. -/
theorem alterResponse {code : String} (h : op.WellFormed) (hcode : IsResponseCode code)
    (change : Option Response → Response) :
    WellFormed { op with responses := op.responses.alter code change } where
  __ := h
  codes other r hr := by
    rw [KeyMap.get?_alter] at hr
    split at hr
    · next hother => exact hother ▸ hcode
    · exact h.codes other r hr

end WellFormed

/-! ## Adding -/

theorem hasParameter_iff {name : String} {location : ParameterLocation} :
    op.hasParameter name location = true ↔ (name, location) ∈ op.parameters.map Parameter.key := by
  unfold hasParameter Parameter.key
  simp only [List.any_eq_true, List.mem_map, Prod.mk.injEq, Bool.and_eq_true,
    decide_eq_true_eq]

theorem WellFormed.addParameter {p : Parameter} (h : op.WellFormed) (hp : p.WellFormed) :
    (op.addParameter p).WellFormed := by
  unfold Operation.addParameter
  split
  · exact h
  · next hnew =>
    refine { h with distinct := ?_, parameters := fun q hq => ?_ }
    · rw [hasParameter_iff] at hnew
      rw [List.map_append, List.nodup_append_comm]
      exact List.nodup_cons.2 ⟨hnew, h.distinct⟩
    · rcases List.mem_append.1 hq with hq | hq
      · exact h.parameters q hq
      · exact List.mem_singleton.1 hq ▸ hp

theorem WellFormed.addResponse {code : String} (h : op.WellFormed) (hcode : IsResponseCode code)
    (r : Response) : (op.addResponse code r).WellFormed := h.alterResponse hcode _

/-- The induction is on what is added. -/
theorem WellFormed.foldl {α : Type} {add : Operation → α → Operation} {items : List α}
    (hadd : ∀ a ∈ items, ∀ op : Operation, op.WellFormed → (add op a).WellFormed)
    (h : op.WellFormed) : (items.foldl add op).WellFormed := by
  induction items generalizing op with
  | nil => exact h
  | cons a rest ih =>
    exact ih (fun b hb => hadd b (List.mem_cons_of_mem _ hb)) (hadd a List.mem_cons_self op h)

/-- What two well-formed operations document together is well formed. -/
theorem WellFormed.fillUnsetFrom (h : op.WellFormed) (hother : other.WellFormed) :
    (op.fillUnsetFrom other).WellFormed := by
  have htags : (if op.tags.isEmpty then other.tags else op.tags).Nodup ∧
      ∀ tag ∈ if op.tags.isEmpty then other.tags else op.tags, tag ≠ "" := by
    split
    · exact ⟨hother.distinctTags, hother.tags⟩
    · exact ⟨h.distinctTags, h.tags⟩
  have hbody : ∀ body, (op.requestBody <|> other.requestBody) = some body → body.WellFormed := by
    intro body hbody
    cases hop : op.requestBody with
    | none =>
      rw [hop] at hbody
      exact hother.body body hbody
    | some known =>
      rw [hop] at hbody
      exact h.body body (hop.trans hbody)
  have hfilled : WellFormed { op with
      summary := op.summary <|> other.summary
      description := op.description <|> other.description
      tags := if op.tags.isEmpty then other.tags else op.tags
      requestBody := op.requestBody <|> other.requestBody } :=
    ⟨h.distinct, h.parameters, htags.1, htags.2, h.codes, hbody⟩
  -- what is added comes from a well-formed operation, part by part
  have hparameters : ∀ p ∈ other.parameters, ∀ op : Operation, op.WellFormed →
      (op.addParameter p).WellFormed :=
    fun p hp op hop => hop.addParameter (hother.parameters p hp)
  have hresponses : ∀ p ∈ other.responses.entries, ∀ op : Operation, op.WellFormed →
      (op.addResponse p.1 p.2).WellFormed :=
    fun p hp op hop => hop.addResponse (hother.codes p.1 p.2 (KeyMap.mem_entries_iff.1 hp)) p.2
  exact (hfilled.foldl hparameters).foldl hresponses

/-! ## Describing -/

/-- Every code has a standard text. -/
theorem statusText_ne_empty (code : String) : statusText code ≠ "" := by
  have hother : "Response " ++ code ≠ "" := by
    intro h
    have hlength := congrArg String.length h
    rw [String.length_append] at hlength
    exact absurd hlength (by simp)
  unfold statusText
  split <;> first | exact hother | decide

/-- Descriptions are all that is new. -/
theorem WellFormed.describeResponses (h : op.WellFormed) : op.describeResponses.WellFormed where
  __ := h
  codes code r hr := by
    obtain ⟨known, hknown, -⟩ :=
      Option.map_eq_some_iff.1 ((KeyMap.get?_mapValues _ _ _).symm.trans hr)
    exact h.codes code known hknown

theorem described_describeResponses {code : String} {r : Response}
    (h : op.describeResponses.responses.get? code = some r) : r.description ≠ "" := by
  obtain ⟨known, -, rfl⟩ := Option.map_eq_some_iff.1 ((KeyMap.get?_mapValues _ _ _).symm.trans h)
  split
  · exact statusText_ne_empty code
  · next hdescription => exact hdescription

theorem WellFormed.published {path : String} {method : Method} (h : op.WellFormed)
    (hid : op.id = OperationId.generate path method) (hmethod : op.method = method) :
    op.describeResponses.Published path method where
  id := hid
  method := hmethod
  wellFormed := h.describeResponses
  described _ _ := described_describeResponses

end Operation

end EndpointDocs
