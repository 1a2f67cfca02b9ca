import EndpointDocs.Proofs.Operation.References

/-!
# Filling what is unset

An operation that is filled from another one keeps all that it documents (`keptIn_fillUnsetFrom`):
texts and tags that it has, its request body, its parameters in front of those that are added, and
of each response the content, and the description unless it is empty.
-/

namespace EndpointDocs

/-- The content of a response is kept, and so is its description if there is one. -/
def Response.KeptIn (r other : Response) : Prop :=
  other.content = r.content ∧ (r.description ≠ "" → other.description = r.description)

/-- What the one operation documents stands in the other as well. -/
structure Operation.KeptIn (op other : Operation) : Prop where
  same : other.SameEndpoint op
  summary : ∀ text, op.summary = some text → other.summary = some text
  description : ∀ text, op.description = some text → other.description = some text
  tags : op.tags ≠ [] → other.tags = op.tags
  parameters : op.parameters <+: other.parameters
  requestBody : ∀ body, op.requestBody = some body → other.requestBody = some body
  responses : ∀ code r, op.responses.get? code = some r →
    ∃ r', other.responses.get? code = some r' ∧ r.KeptIn r'

/-! ### Keeping as an order

Being kept is reflexive and transitive. So it is enough to show it of single steps: one parameter,
one response, the texts. -/

theorem Response.KeptIn.refl (r : Response) : r.KeptIn r := ⟨rfl, fun _ => rfl⟩

/-- A description that is kept is not empty, so it is kept again. -/
theorem Response.KeptIn.trans {r s t : Response} (h : r.KeptIn s) (h' : s.KeptIn t) :
    r.KeptIn t := by
  refine ⟨h'.1.trans h.1, fun hr => ?_⟩
  have hs : s.description = r.description := h.2 hr
  rw [h'.2 (hs ▸ hr), hs]

/-- Only an empty description is taken from the other response. -/
theorem Response.keptIn_describedBy (r other : Response) : r.KeptIn (r.describedBy other) :=
  ⟨Operation.RefersTo.content_describedBy r other, fun hr => by rw [describedBy, if_neg hr]⟩

namespace Operation

namespace KeptIn

/-- Nothing is changed. -/
theorem refl (op : Operation) : op.KeptIn op where
  same := ⟨rfl, rfl⟩
  summary _ h := h
  description _ h := h
  tags _ := rfl
  parameters := List.prefix_refl _
  requestBody _ h := h
  responses _ r h := ⟨r, h, .refl r⟩

theorem trans {op other last : Operation} (h : op.KeptIn other) (h' : other.KeptIn last) :
    op.KeptIn last where
  same := h'.same.trans h.same
  summary text hop := h'.summary text (h.summary text hop)
  description text hop := h'.description text (h.description text hop)
  tags hop := by
    have hother : other.tags = op.tags := h.tags hop
    rw [h'.tags (hother ▸ hop), hother]
  parameters := h.parameters.trans h'.parameters
  requestBody body hop := h'.requestBody body (h.requestBody body hop)
  responses code r hr := by
    obtain ⟨s, hs, hrs⟩ := h.responses code r hr
    obtain ⟨t, ht, hst⟩ := h'.responses code s hs
    exact ⟨t, ht, hrs.trans hst⟩

/-- The induction is on what is added. -/
theorem foldl {α : Type} {add : Operation → α → Operation}
    (h : ∀ (op : Operation) a, op.KeptIn (add op a))
    (items : List α) (op : Operation) : op.KeptIn (items.foldl add op) := by
  induction items generalizing op with
  | nil => exact .refl op
  | cons a rest ih => exact (h op a).trans (ih (add op a))

end KeptIn

/-- A parameter is added behind the others, or not at all. -/
theorem keptIn_addParameter (op : Operation) (p : Parameter) : op.KeptIn (op.addParameter p) := by
  unfold addParameter
  split
  · exact .refl op
  · exact { KeptIn.refl op with parameters := List.prefix_append _ _ }

/-- A response that is there gets at most a description. -/
theorem keptIn_addResponse (op : Operation) (code : String) (r : Response) :
    op.KeptIn (op.addResponse code r) := by
  refine { KeptIn.refl op with responses := fun other known hknown => ?_ }
  unfold addResponse
  simp only [KeyMap.get?_alter]
  by_cases hcode : other = code
  · rw [if_pos hcode, ← hcode, hknown]
    exact ⟨_, rfl, known.keptIn_describedBy r⟩
  · rw [if_neg hcode]
    exact ⟨known, hknown, .refl known⟩

/-- Nothing that is present is replaced. -/
theorem keptIn_fillUnsetFrom (op defaults : Operation) : op.KeptIn (op.fillUnsetFrom defaults) := by
  let texts : Operation := { op with
    summary := op.summary <|> defaults.summary
    description := op.description <|> defaults.description
    tags := if op.tags.isEmpty then defaults.tags else op.tags
    requestBody := op.requestBody <|> defaults.requestBody }
  have htexts : op.KeptIn texts := by
    refine { KeptIn.refl op with
      summary := fun text h => ?_, description := fun text h => ?_, tags := fun h => ?_
      requestBody := fun body h => ?_ }
    · show (op.summary <|> defaults.summary) = some text
      rw [h]
      rfl
    · show (op.description <|> defaults.description) = some text
      rw [h]
      rfl
    · show (if op.tags.isEmpty then defaults.tags else op.tags) = op.tags
      rw [if_neg fun hempty => h (List.isEmpty_iff.1 hempty)]
    · show (op.requestBody <|> defaults.requestBody) = some body
      rw [h]
      rfl
  -- what is left are two folds, each of which keeps what is there step by step
  have hparameters := KeptIn.foldl keptIn_addParameter defaults.parameters texts
  have hresponses := KeptIn.foldl (fun op (p : String × Response) => keptIn_addResponse op p.1 p.2)
    defaults.responses.entries (defaults.parameters.foldl addParameter texts)
  exact (htexts.trans hparameters).trans hresponses

end Operation

end EndpointDocs
