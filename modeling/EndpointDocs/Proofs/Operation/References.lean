import EndpointDocs.Proofs.KeyMap
import EndpointDocs.Proofs.Schema.References
import EndpointDocs.Tags.Body

/-!
# References in an operation

An operation refers to components in the schemas of its parameters, of its request body and of its
responses (`Operation.RefersTo`). Each change that the filters make to an operation keeps this: the
schemas behind it are those that were there, those that were added, and widenings of the two.
-/

namespace EndpointDocs

variable {keys more : String → Prop}

/-- Every schema of the content refers to components of the given keys. -/
def ContentRefersTo (keys : String → Prop) (content : KeyMap String MediaType) : Prop :=
  ∀ name media, content.get? name = some media → media.schema.RefersTo keys

/-- Every schema of the operation refers to components of the given keys. -/
structure Operation.RefersTo (keys : String → Prop) (op : Operation) : Prop where
  parameters : ∀ p ∈ op.parameters, p.schema.RefersTo keys
  requestBody : ∀ body ∈ op.requestBody, ContentRefersTo keys body.content
  responses : ∀ code r, op.responses.get? code = some r → ContentRefersTo keys r.content

/-! ## Contents

Media of one name are merged by widening their schemas, and this is where references of two places
come together. -/

namespace ContentRefersTo

variable {content : KeyMap String MediaType}

/-- No media, no references. -/
theorem empty : ContentRefersTo keys ∅ := fun _ _ h => nomatch h

theorem mono (hsub : ∀ key, keys key → more key) (h : ContentRefersTo keys content) :
    ContentRefersTo more content :=
  fun name media hm => (h name media hm).mono hsub

/-- Media of a known type are widened, others are added. -/
theorem addMedia (h : ContentRefersTo keys content) {media : MediaType}
    (hm : media.schema.RefersTo keys) (name : String) :
    ContentRefersTo keys (Tags.addMedia content name media) := by
  intro other found hfound
  rw [Tags.addMedia, KeyMap.get?_alter] at hfound
  split at hfound
  · cases hk : content.get? name with
    | none =>
      rw [hk] at hfound
      cases hfound
      exact hm
    | some known =>
      rw [hk] at hfound
      cases hfound
      exact (h name known hk).widen hm
  · exact h other found hfound

end ContentRefersTo

/-! ## Operations

One lemma for each change: a parameter, a response, the layer of defaults, the descriptions. The
body is changed only as a whole. -/

namespace Operation.RefersTo

variable {op other : Operation}

theorem mono (hsub : ∀ key, keys key → more key) (h : op.RefersTo keys) : op.RefersTo more where
  parameters p hp := (h.parameters p hp).mono hsub
  requestBody body hb := (h.requestBody body hb).mono hsub
  responses code r hr := (h.responses code r hr).mono hsub

/-- A new operation has no schemas. -/
theorem new (id : String) (method : Method) :
    ({ id := id, method := method } : Operation).RefersTo keys where
  parameters _ hp := nomatch hp
  requestBody _ hb := nomatch hb
  responses _ _ hr := nomatch hr

/-- A parameter of a known key is dropped, with its schema. -/
theorem addParameter (h : op.RefersTo keys) {p : Parameter} (hp : p.schema.RefersTo keys) :
    (op.addParameter p).RefersTo keys := by
  unfold Operation.addParameter
  split
  · exact h
  · refine ⟨fun p' hp' => ?_, h.requestBody, h.responses⟩
    rcases List.mem_append.1 hp' with hp' | hp'
    · exact h.parameters p' hp'
    · rw [List.mem_singleton.1 hp']
      exact hp

/-- The other responses are as they were. -/
theorem alterResponse (h : op.RefersTo keys) {code : String} {change : Option Response → Response}
    (hc : ContentRefersTo keys (change (op.responses.get? code)).content) :
    ({ op with responses := op.responses.alter code change } : Operation).RefersTo keys := by
  refine ⟨h.parameters, h.requestBody, fun other r hr => ?_⟩
  rw [KeyMap.get?_alter] at hr
  split at hr
  · cases hr
    exact hc
  · exact h.responses other r hr

/-- A description is no media. -/
theorem content_describedBy (r other : Response) : (r.describedBy other).content = r.content := by
  unfold Response.describedBy
  split <;> rfl

theorem addResponse (h : op.RefersTo keys) {r : Response} (hr : ContentRefersTo keys r.content)
    (code : String) : (op.addResponse code r).RefersTo keys := by
  refine h.alterResponse ?_
  cases hk : op.responses.get? code with
  | none => exact hr
  | some known =>
    show ContentRefersTo keys (known.describedBy r).content
    rw [content_describedBy]
    exact h.responses code known hk

/-- The induction is on the parameters that are added. -/
theorem foldl_addParameter {parameters : List Parameter} (h : op.RefersTo keys)
    (hp : ∀ p ∈ parameters, p.schema.RefersTo keys) :
    (parameters.foldl Operation.addParameter op).RefersTo keys := by
  induction parameters generalizing op with
  | nil => exact h
  | cons p rest ih =>
    exact ih (h.addParameter (hp p List.mem_cons_self)) fun p' hp' =>
      hp p' (List.mem_cons_of_mem _ hp')

/-- The induction is on the responses that are added. -/
theorem foldl_addResponse {entries : List (String × Response)} (h : op.RefersTo keys)
    (hr : ∀ e ∈ entries, ContentRefersTo keys e.2.content) :
    (entries.foldl (fun op e => op.addResponse e.1 e.2) op).RefersTo keys := by
  induction entries generalizing op with
  | nil => exact h
  | cons e rest ih =>
    exact ih (h.addResponse (hr e List.mem_cons_self) e.1) fun e' he' =>
      hr e' (List.mem_cons_of_mem _ he')

/-- Both operations refer to given components, whichever of them a field comes from. -/
theorem fillUnsetFrom (h : op.RefersTo keys) (h' : other.RefersTo keys) :
    (op.fillUnsetFrom other).RefersTo keys := by
  unfold Operation.fillUnsetFrom
  refine foldl_addResponse (foldl_addParameter ⟨h.parameters, fun body hb => ?_, h.responses⟩
    h'.parameters) fun e he => ?_
  · cases hbody : op.requestBody with
    | none =>
      simp only [hbody] at hb
      exact h'.requestBody body hb
    | some known =>
      simp only [hbody] at hb
      cases hb
      exact h.requestBody _ hbody
  · exact h'.responses e.1 e.2 (KeyMap.mem_entries_iff.1 he)

/-- Descriptions refer to nothing. -/
theorem describeResponses (h : op.RefersTo keys) : op.describeResponses.RefersTo keys := by
  refine ⟨h.parameters, h.requestBody, fun code r hr => ?_⟩
  rw [Operation.describeResponses, KeyMap.get?_mapValues] at hr
  obtain ⟨known, hk, rfl⟩ := Option.map_eq_some_iff.1 hr
  have hcontent : (if known.description = "" then
      { known with description := statusText code } else known).content = known.content := by
    split <;> rfl
  rw [hcontent]
  exact h.responses code known hk

end Operation.RefersTo

/-! ## Id and method

An operation is told by its id and its method, which nothing changes once it is made. What a filter
returns can thus be put back under the key that it was taken from. -/

namespace Operation

/-- The two are the same operation, seen at different times. -/
def SameEndpoint (op other : Operation) : Prop := op.id = other.id ∧ op.method = other.method

theorem sameEndpoint_addParameter (op : Operation) (p : Parameter) :
    (op.addParameter p).SameEndpoint op := by
  unfold addParameter
  split <;> exact ⟨rfl, rfl⟩

theorem SameEndpoint.trans {op other third : Operation} (h : op.SameEndpoint other)
    (h' : other.SameEndpoint third) : op.SameEndpoint third :=
  ⟨h.1.trans h'.1, h.2.trans h'.2⟩

/-- The induction is on the items. -/
theorem sameEndpoint_foldl {α : Type} {change : Operation → α → Operation}
    (h : ∀ op a, (change op a).SameEndpoint op) (items : List α) (op : Operation) :
    (items.foldl change op).SameEndpoint op := by
  induction items generalizing op with
  | nil => exact ⟨rfl, rfl⟩
  | cons a rest ih => exact (ih (change op a)).trans (h op a)

/-- The defaults have an id of their own, which is not taken over. -/
theorem sameEndpoint_fillUnsetFrom (op other : Operation) :
    (op.fillUnsetFrom other).SameEndpoint op := by
  unfold fillUnsetFrom
  have hresponse : ∀ (op : Operation) (p : String × Response),
      (op.addResponse p.1 p.2).SameEndpoint op := fun _ _ => ⟨rfl, rfl⟩
  have hresponses := sameEndpoint_foldl hresponse other.responses.entries
  have hparameters := sameEndpoint_foldl sameEndpoint_addParameter other.parameters
  exact ((hresponses _).trans (hparameters _)).trans ⟨rfl, rfl⟩

end Operation

end EndpointDocs
