import EndpointDocs.Proofs.Operation.Filling
import EndpointDocs.Proofs.Schema.Dependencies

/-!
# What an operation refers to

The keys of the components that a schema of an operation refers to (`Operation.Refers`). Whatever is
added to an operation, it refers to all that it referred to before and to what was added: schemas of
one media type are widened, and widening loses no reference.
-/

namespace EndpointDocs

open Schema

variable {key : String}

/-- A schema of the content refers to the component of the key. -/
def ContentRefers (content : KeyMap String MediaType) (key : String) : Prop :=
  ∃ name media, content.get? name = some media ∧ componentsPrefix ++ key ∈ media.schema.refs

/-- A schema of the operation refers to the component of the key. -/
inductive Operation.Refers (op : Operation) (key : String) : Prop where
  | parameter (p : Parameter) (hp : p ∈ op.parameters) (h : componentsPrefix ++ key ∈ p.schema.refs)
  | requestBody (body : RequestBody) (hb : op.requestBody = some body)
      (h : ContentRefers body.content key)
  | response (code : String) (r : Response) (hr : op.responses.get? code = some r)
      (h : ContentRefers r.content key)

/-- References may only be to given keys. -/
theorem Schema.RefersTo.of_mem_refs {keys : String → Prop} {s : Schema} (h : s.RefersTo keys)
    (href : componentsPrefix ++ key ∈ s.refs) : keys key := by
  obtain ⟨other, hsame, hkey⟩ := h _ href
  have hchars := congrArg String.toList hsame
  rw [String.toList_append, String.toList_append, List.append_cancel_left_eq] at hchars
  exact String.toList_injective hchars ▸ hkey

theorem Operation.RefersTo.of_refers {keys : String → Prop} {op : Operation} (h : op.RefersTo keys)
    (hkey : op.Refers key) : keys key := by
  cases hkey with
  | parameter p hp href => exact (h.parameters p hp).of_mem_refs href
  | requestBody body hb href =>
    obtain ⟨name, media, hm, href⟩ := href
    exact (h.requestBody body hb name media hm).of_mem_refs href
  | response code r hr href =>
    obtain ⟨name, media, hm, href⟩ := href
    exact (h.responses code r hr name media hm).of_mem_refs href

/-! ## Contents -/

theorem ContentRefers.not_empty : ¬ ContentRefers ∅ key := fun ⟨_, _, hm, _⟩ => nomatch hm

/-- Media that are added are merged with those of the same type. -/
theorem ContentRefers.addMedia {content : KeyMap String MediaType} {media : MediaType}
    (h : ContentRefers content key ∨ componentsPrefix ++ key ∈ media.schema.refs) (name : String) :
    ContentRefers (Tags.addMedia content name media) key := by
  have hadded : (Tags.addMedia content name media).get? name =
      some (((content.get? name).map (Tags.mergeMedia · media)).getD media) :=
    (KeyMap.get?_alter _ _ _ _).trans (if_pos rfl)
  rcases h with ⟨other, known, hknown, href⟩ | href
  · -- media of the same name are widened, which keeps the references of both
    by_cases hother : other = name
    · subst hother
      rw [hknown] at hadded
      exact ⟨other, _, hadded, mem_refs_widen_iff.2 (.inl href)⟩
    · refine ⟨other, known, ?_, href⟩
      rw [Tags.addMedia, KeyMap.get?_alter, if_neg hother, hknown]
  · refine ⟨name, _, hadded, ?_⟩
    cases content.get? name with
    | none => exact href
    | some known => exact mem_refs_widen_iff.2 (.inr href)

/-! ## Operations -/

theorem Operation.addParameter_of_new {op : Operation} {p : Parameter}
    (hnew : op.hasParameter p.name p.location = false) :
    op.addParameter p = { op with parameters := op.parameters ++ [p] } := by
  rw [addParameter, hnew, if_neg Bool.false_ne_true]

namespace Operation.Refers

variable {op other : Operation}

theorem of_keptIn (h : op.Refers key) (hkept : op.KeptIn other) : other.Refers key := by
  cases h with
  | parameter p hp h => exact .parameter p (hkept.parameters.subset hp) h
  | requestBody body hb h => exact .requestBody body (hkept.requestBody body hb) h
  | response code r hr h =>
    obtain ⟨r', hr', hcontent, -⟩ := hkept.responses code r hr
    exact .response code r' hr' (hcontent ▸ h)

/-- A parameter that is new is added. -/
theorem addParameter {p : Parameter} (hnew : op.hasParameter p.name p.location = false)
    (h : op.Refers key ∨ componentsPrefix ++ key ∈ p.schema.refs) :
    (op.addParameter p).Refers key := by
  rcases h with h | h
  · exact h.of_keptIn (op.keptIn_addParameter p)
  · refine .parameter p ?_ h
    rw [addParameter_of_new hnew]
    exact List.mem_append_right _ (List.mem_singleton_self p)

/-- A change of the texts. -/
theorem texts (h : op.Refers key) (summary description : Option String) (tags : List String) :
    ({ op with summary, description, tags } : Operation).Refers key := by
  cases h with
  | parameter p hp h => exact .parameter p hp h
  | requestBody body hb h => exact .requestBody body hb h
  | response code r hr h => exact .response code r hr h

/-- A request body takes the place of one that refers to no more. -/
theorem withBody {body : RequestBody}
    (h : op.Refers key ∨ ContentRefers body.content key)
    (hkept : ∀ known, op.requestBody = some known → ContentRefers known.content key →
      ContentRefers body.content key) :
    ({ op with requestBody := some body } : Operation).Refers key := by
  rcases h with h | h
  · cases h with
    | parameter p hp h => exact .parameter p hp h
    | requestBody known hb h => exact .requestBody body rfl (hkept known hb h)
    | response code r hr h => exact .response code r hr h
  · exact .requestBody body rfl h

/-- A response takes the place of one that refers to no more. -/
theorem alterResponse {code : String} {change : Option Response → Response}
    (h : op.Refers key ∨ ContentRefers (change (op.responses.get? code)).content key)
    (hkept : ∀ known, op.responses.get? code = some known → ContentRefers known.content key →
      ContentRefers (change (some known)).content key) :
    ({ op with responses := op.responses.alter code change } : Operation).Refers key := by
  have hget := fun other => KeyMap.get?_alter op.responses code other change
  rcases h with h | h
  · cases h with
    | parameter p hp h => exact .parameter p hp h
    | requestBody body hb h => exact .requestBody body hb h
    | response other r hr h =>
      -- the response that is changed keeps its references, and the others are as they were
      by_cases hother : other = code
      · subst hother
        have hchanged := (hget other).trans (if_pos rfl)
        rw [hr] at hchanged
        exact .response other _ hchanged (hkept r hr h)
      · exact .response other r ((hget other).trans ((if_neg hother).trans hr)) h
  · exact .response code _ ((hget code).trans (if_pos rfl)) h

theorem describeResponses (h : op.Refers key) : op.describeResponses.Refers key := by
  cases h with
  | parameter p hp h => exact .parameter p hp h
  | requestBody body hb h => exact .requestBody body hb h
  | response code r hr h =>
    refine .response code _ ((KeyMap.get?_mapValues _ _ _).trans (congrArg _ hr)) ?_
    dsimp only
    split
    · exact h
    · exact h

end Operation.Refers

end EndpointDocs
