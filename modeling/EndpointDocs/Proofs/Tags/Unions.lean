import EndpointDocs.Proofs.KeyMap
import EndpointDocs.Proofs.Operation.Uses
import EndpointDocs.Proofs.Schema.Unions
import EndpointDocs.Proofs.Tags.Reading

/-!
# Unions in an operation

A tag that names several types describes a union of their schemas. Tags of one media type are merged
by widening the schema of the first one by those of the others, one behind the other (`MergedFrom`).
So all alternatives in an operation are of different shapes, and a union is flat if only the first
tag of its media type names several shapes (`Tags.unions_of_applyAll`). A later tag of that kind
adds its union as one alternative (`Tags.pets_nested`).

The proofs go from the inside out: the schema of one type, of the types of one tag, of the tags of
one media type, and of an operation behind all of its tags. That the registry changes along the way
is of no account, as no schema of a tag depends on it: what `Answers` says holds of the answers of
every run.
-/

namespace EndpointDocs

open Schema Resolving

/-! ## Types

A type that is used somewhere is a reference or a fixed schema inside of lists and maps. None of
these is a union, so that a union only comes from widening. -/

namespace TypeExpr

/-- The schema of the type where it is used. -/
def inline (t : TypeExpr) : Schema :=
  match t.peel with
  | (ws, .fixed s) => wrap ws s
  | (ws, .named core) => wrap ws (.component core.refKey)

/-- There is no union in the schema of a single type. -/
theorem unions_inline (t : TypeExpr) : t.inline.unions = [] := by
  unfold inline
  rcases hpeel : t.peel with ⟨ws, schema | core⟩
  · obtain ⟨type, format, rfl⟩ := fixed_of_peel hpeel
    exact unions_wrap ws _
  · exact unions_wrap ws _

end TypeExpr

/-- Resolving answers with this schema, whatever the registry holds. Only whether it answers depends
on the registry. -/
theorem Registry.answers_resolve (resolver : Resolver) (depth : Nat) (t : TypeExpr) (v : Variant) :
    Answers (resolve resolver depth t v) fun answer => ∀ s, answer = .ok s → s = t.inline := by
  unfold resolve
  refine .bind (Q := fun found => ∀ p, found = .ok p → p.1 = t.inline) ?_ fun found hfound => ?_
  · unfold inlineSchema TypeExpr.inline
    rcases t.peel with ⟨ws, schema | core⟩
    · exact .pure fun p hp => by cases hp; rfl
    -- what the call for the component does to the registry is not asked
    · refine .bind (Q := fun _ => True) (fun _ _ _ _ => trivial) fun result _ => ?_
      cases result with
      | ok => exact .pure fun p hp => by cases hp; rfl
      | error e => exact .pure fun p hp => by cases hp
  · cases found with
    | error e => exact .pure fun s hs => by cases hs
    | ok p =>
      refine .bind (Q := fun _ => True) (fun _ _ _ _ => trivial) fun _ _ => .pure fun s hs => ?_
      cases hs
      exact hfound p rfl

namespace Tags

/-! ## Schemas of tags

The types of a tag are widened from the first one on. `shapesOf` lists their schemas in this order
without running anything, so conditions about a tag can be stated, and decided, on its text alone.
-/

/-- The schemas of type expressions; what is none is left out. -/
def shapesOfTexts (texts : List String) : List Schema :=
  texts.filterMap fun source => (Source.typeExpr? source).map TypeExpr.inline

/-- The schemas of the types that a tag names. -/
def shapesOf (tag : Element) : List Schema := shapesOfTexts (typeTexts tag)

/-- The types that the tag names have one shape. -/
def OneShape (tag : Element) : Prop :=
  ∀ s ∈ shapesOf tag, ∀ o ∈ shapesOf tag, s.sameShape o = true

instance (tag : Element) : Decidable (OneShape tag) :=
  inferInstanceAs (Decidable (∀ s ∈ shapesOf tag, ∀ o ∈ shapesOf tag, s.sameShape o = true))

/-- The schema is that of the types of the tag, perhaps with an example. -/
def Describes (tag : Element) (s : Schema) : Prop :=
  ∃ first rest sample, shapesOf tag = first :: rest ∧
    s = { rest.foldl widen first with sample := sample }

variable {scope : Scope} {tag : Element} {s o : Schema} {tags : List Element}

theorem unions_of_mem_shapesOf (h : s ∈ shapesOf tag) : s.unions = [] := by
  obtain ⟨source, -, hs⟩ := List.mem_filterMap.1 h
  obtain ⟨t, -, rfl⟩ := Option.map_eq_some_iff.1 hs
  exact t.unions_inline

/-- What is known so far, widened by one schema more. -/
def widenKnown (known : Option Schema) (s : Schema) : Option Schema :=
  some ((known.map (·.widen s)).getD s)

theorem foldl_widenKnown (s : Schema) (ss : List Schema) :
    ss.foldl widenKnown (some s) = some (ss.foldl widen s) := by
  induction ss generalizing s with
  | nil => rfl
  | cons o rest ih => exact ih (s.widen o)

theorem answers_schemaOfText (scope : Scope) (source : String) :
    Answers (schemaOfText scope source) fun answer =>
      ∀ s, answer = .ok s → shapesOfTexts [source] = [s] := by
  unfold schemaOfText
  cases ht : Source.typeExpr? source with
  | none => exact .pure fun s hs => by cases hs
  | some t =>
    intro r answer r' hrun s hs
    rw [Registry.answers_resolve _ _ t _ r answer r' hrun s hs, shapesOfTexts,
      List.filterMap_cons_some (by rw [ht]; rfl)]
    rfl

/-- The induction is on the type expressions. -/
theorem answers_widenByTexts (scope : Scope) (texts : List String) (known : Option Schema) :
    Answers (widenByTexts scope texts known) fun answer =>
      ∀ found, answer = .ok found → found = (shapesOfTexts texts).foldl widenKnown known := by
  induction texts generalizing known with
  | nil => exact .pure fun found h => by cases h; rfl
  | cons source rest ih =>
    refine .bind (answers_schemaOfText scope source) fun answer hanswer => ?_
    cases answer with
    | error e => exact .pure fun found h => by cases h
    | ok s =>
      have hsplit : shapesOfTexts (source :: rest) = s :: shapesOfTexts rest := by
        show shapesOfTexts ([source] ++ rest) = _
        rw [shapesOfTexts, List.filterMap_append]
        exact congrArg (· ++ shapesOfTexts rest) (hanswer s rfl)
      rw [hsplit]
      exact ih _

/-- The schema of a tag, if there is one, is that of its types. -/
theorem answers_schemaOf (scope : Scope) (tag : Element) :
    Answers (schemaOf scope tag) fun answer => ∀ found, answer = .ok found →
      found = none ∧ shapesOf tag = [] ∨ ∃ s, found = some s ∧ Describes tag s := by
  intro r answer r' hrun found hfound
  have hwidened : found = (shapesOf tag).foldl widenKnown none :=
    answers_widenByTexts scope (typeTexts tag) none r answer r' hrun found hfound
  -- without types there is no schema; otherwise the first is widened by the rest
  rcases hshapes : shapesOf tag with - | ⟨first, rest⟩
  · exact .inl ⟨hwidened.trans (by rw [hshapes]; rfl), rfl⟩
  · have hfound : found = some (rest.foldl widen first) := by
      rw [hwidened, hshapes]
      exact foldl_widenKnown first rest
    refine .inr ⟨_, hfound, first, rest, (rest.foldl widen first).sample, hshapes, ?_⟩
    cases rest.foldl widen first
    rfl

/-- An example may be put into the schema, and nothing else changes in it. -/
theorem answers_mediaOfSchema (v : Variant) (tag : Element) (h : Describes tag s) :
    Answers (mediaOfSchema v tag s) fun media => Describes tag media.schema := by
  -- the example goes into the component, or else into the schema where it is used
  have hshown : ∀ value, Answers (showExample v s value) (Describes tag) := by
    intro value
    refine .bind (Q := fun _ => True) (fun _ _ _ _ => trivial) fun found _ => ?_
    cases found with
    | true => exact .pure h
    | false =>
      obtain ⟨first, rest, -, hshapes, rfl⟩ := h
      exact .pure ⟨first, rest, some value, hshapes, rfl⟩
  intro r media r' hrun
  cases hfirst : (examplesOf tag).head? with
  | none =>
    simp only [mediaOfSchema, hfirst, pure_bind] at hrun
    obtain ⟨rfl, -⟩ := run_pure_eq_some.1 hrun
    exact h
  | some first =>
    simp only [mediaOfSchema, hfirst] at hrun
    obtain ⟨shown, q, hshow, hreturn⟩ := run_bind_eq_some.1 hrun
    obtain ⟨rfl, -⟩ := run_pure_eq_some.1 hreturn
    exact hshown first.2.value r shown q hshow

/-- There is a media type for a tag exactly if it names types. -/
theorem answers_mediaOf (scope : Scope) (tag : Element) :
    Answers (mediaOf scope tag) fun answer => ∀ found, answer = .ok found →
      found = none ∧ shapesOf tag = [] ∨ ∃ media, found = some media ∧
        Describes tag media.schema := by
  refine .bind (answers_schemaOf scope tag) fun answer hanswer => ?_
  rcases answer with e | (- | s)
  · exact .pure fun found h => by cases h
  · rcases hanswer none rfl with ⟨-, hnone⟩ | ⟨s, hs, -⟩
    · exact .pure fun found h => by cases h; exact .inl ⟨rfl, hnone⟩
    · cases hs
  · rcases hanswer (some s) rfl with ⟨hs, -⟩ | ⟨_, ⟨⟩, hdescribes⟩
    · cases hs
    · refine .bind (answers_mediaOfSchema scope.variant tag hdescribes) fun media hmedia => ?_
      exact .pure fun found h => by cases h; exact .inr ⟨media, rfl, hmedia⟩

/-- The types of one tag make a flat schema. -/
theorem Describes.flat (h : Describes tag s) : s.Plain ∧ s.Separated ∧ s.Flat := by
  obtain ⟨first, rest, sample, hshapes, rfl⟩ := h
  have hunions : ∀ t ∈ first :: rest, t.unions = [] := by
    rw [← hshapes]
    exact fun t ht => unions_of_mem_shapesOf ht
  have hfirst := hunions first List.mem_cons_self
  obtain ⟨hplain, hseparated, hflat⟩ := foldl_widen_flat (.inl (anyOf_of_unions_eq_nil hfirst))
    (separated_of_unions_eq_nil hfirst) (flat_of_unions_eq_nil hfirst)
    fun o ho => hunions o (List.mem_cons_of_mem _ ho)
  unfold Separated Flat
  rw [unions_with_sample]
  exact ⟨hplain, hseparated, hflat⟩

/-- Widening by the same shape adds no alternative. -/
theorem Describes.anyOf_of_oneShape (h : Describes tag s) (hone : OneShape tag) :
    s.anyOf = none := by
  obtain ⟨first, rest, sample, hshapes, rfl⟩ := h
  have hfirst : first ∈ shapesOf tag := hshapes ▸ List.mem_cons_self
  show (rest.foldl widen first).anyOf = none
  rw [anyOf_foldl_widen fun o ho => hone first hfirst o (hshapes ▸ List.mem_cons_of_mem _ ho)]
  exact anyOf_of_unions_eq_nil (unions_of_mem_shapesOf hfirst)

/-! ## Tags that are merged

The next tag widens by a schema as a whole. Here unions may come to stand inside of unions:
alternatives stay apart in any case, but a schema that is a union itself becomes one alternative. -/

/-- The schema is made from the tags, each widening the schema of those before it. -/
inductive MergedFrom : List Element → Schema → Prop
  | first {tag : Element} {s : Schema} (h : Describes tag s) : MergedFrom [tag] s
  | next {tags : List Element} {tag : Element} {s o : Schema} (h : MergedFrom tags s)
      (ho : Describes tag o) : MergedFrom (tags ++ [tag]) (s.widen o)

namespace MergedFrom

theorem ne_nil (h : MergedFrom tags s) : tags ≠ [] := by
  cases h with
  | first => exact List.cons_ne_nil _ _
  | next => exact List.append_ne_nil_of_right_ne_nil _ (List.cons_ne_nil _ _)

theorem separated (h : MergedFrom tags s) : s.Separated := by
  induction h with
  | first h => exact h.flat.2.1
  | next h ho ih => exact ih.widen ho.flat.2.1

theorem plain (h : MergedFrom tags s) : s.Plain := by
  induction h with
  | first h => exact h.flat.1
  | next h ho ih => exact ih.widen

/-- The induction is on the tags: a tag that names one shape adds no union. -/
theorem flat (h : MergedFrom tags s) (hone : ∀ tag ∈ tags.tail, OneShape tag) : s.Flat := by
  induction h with
  | first h => exact h.flat.2.2
  | @next tags tag s o h ho ih =>
    rw [List.tail_append_of_ne_nil h.ne_nil] at hone
    -- the condition is about every tag but the first, so about this one too
    have hadded : o.anyOf = none := ho.anyOf_of_oneShape
      (hone tag (List.mem_append_right _ (List.mem_singleton_self tag)))
    have hflat := ih fun t ht => hone t (List.mem_append_left _ ht)
    exact (flat_widen_iff h.plain hflat ho.flat.2.2).2 (.inl hadded)

end MergedFrom

/-! ## Contents

The same for all media types of a body or response at once. A media type has an entry as soon as one
of the tags describes it. -/

/-- The tags that describe what a body holds in a media type. -/
def describing (name : String) (tags : List Element) : List Element :=
  tags.filter fun tag => mediaTypeName tag = name && !(shapesOf tag).isEmpty

/-- The schema of every media type is made from the tags that describe it. -/
def MadeFrom (tags : List Element) (content : KeyMap String MediaType) : Prop :=
  ∀ name, (content.get? name = none ∧ describing name tags = []) ∨
    ∃ media, content.get? name = some media ∧ MergedFrom (describing name tags) media.schema

variable {content : KeyMap String MediaType} {media : MediaType}

theorem MadeFrom.empty : MadeFrom [] ∅ := fun _ => .inl ⟨rfl, rfl⟩

/-- A tag that names no type describes no content. -/
theorem MadeFrom.untyped (h : MadeFrom tags content) (htag : shapesOf tag = []) :
    MadeFrom (tags ++ [tag]) content := by
  intro name
  have hsame : describing name (tags ++ [tag]) = describing name tags := by
    rw [describing, List.filter_append, List.filter_cons_of_neg (by rw [htag]; simp)]
    exact List.append_nil _
  rw [hsame]
  exact h name

/-- The tag widens the entry of its own media type, or makes it, and touches no other one. -/
theorem MadeFrom.addMedia (h : MadeFrom tags content) (htag : Describes tag media.schema) :
    MadeFrom (tags ++ [tag]) (addMedia content (mediaTypeName tag) media) := by
  have htyped : (shapesOf tag).isEmpty = false := by
    obtain ⟨first, rest, -, hshapes, -⟩ := htag
    rw [hshapes]
    rfl
  intro name
  unfold Tags.addMedia describing
  rw [KeyMap.get?_alter, List.filter_append]
  by_cases hname : name = mediaTypeName tag
  · subst hname
    rw [if_pos rfl, List.filter_cons_of_pos (by simp [htyped])]
    refine .inr ⟨_, rfl, ?_⟩
    -- the first tag of the media type, or one more
    rcases h (mediaTypeName tag) with ⟨hnone, htags⟩ | ⟨known, hknown, hmerged⟩
    · rw [hnone]
      rw [describing] at htags
      rw [htags]
      exact .first htag
    · rw [hknown]
      exact hmerged.next htag
  · rw [if_neg hname, List.filter_cons_of_neg (by simp [Ne.symm hname]), List.filter_nil,
      List.append_nil]
    exact h name

/-! ## Steps

What holds of the operation behind some of the tags, and each kind of tag keeps it. A body is
described by all body tags, a response by the tags of its code. -/

/-- What is known of the operation once some tags of bodies and responses were read. -/
structure Read (bodies responses : List Element) (op : Operation) : Prop where
  parameters : ∀ p ∈ op.parameters, p.schema.Separated ∧ p.schema.Flat
  body : MadeFrom bodies ((op.requestBody.map RequestBody.content).getD ∅)
  responses : ∀ code, MadeFrom (responses.filter fun tag => statusCodeOf tag = code)
    (((op.responses.get? code).map Response.content).getD ∅)

variable {bodies responses : List Element} {op op' : Operation} {r r' : Registry}

theorem read_addParameter (h : Read bodies responses op)
    (hrun : (addParameter scope tag op).run r = some ((op', []), r')) :
    Read bodies responses op' := by
  obtain ⟨location, -, ⟨-, rfl, -⟩ | ⟨hnew, schema, hschema, rfl⟩⟩ := addParameter_of_run hrun
  · exact h
  have hflat : (parameterOf tag location schema).schema.Separated ∧
      (parameterOf tag location schema).schema.Flat := by
    rcases answers_schemaOf scope tag r _ r' hschema schema rfl with ⟨rfl, -⟩ | ⟨s, rfl, hs⟩
    · exact ⟨separated_of_unions_eq_nil rfl, flat_of_unions_eq_nil rfl⟩
    · exact hs.flat.2
  rw [Operation.addParameter_of_new hnew]
  refine { h with parameters := fun p hp => ?_ }
  rcases List.mem_append.1 hp with hp | hp
  · exact h.parameters p hp
  · exact List.mem_singleton.1 hp ▸ hflat

theorem read_addBody (h : Read bodies responses op)
    (hrun : (addBody scope tag op).run r = some ((op', []), r')) :
    Read (bodies ++ [tag]) responses op' := by
  obtain ⟨media, hmedia, rfl⟩ := addBody_of_run hrun
  rcases answers_mediaOf scope tag r _ r' hmedia _ rfl with ⟨hnone, -⟩ | ⟨_, ⟨⟩, hdescribes⟩
  · cases hnone
  · have hcontent : (op.requestBody.getD {}).content =
        (op.requestBody.map RequestBody.content).getD ∅ := by
      cases op.requestBody <;> rfl
    refine { h with body := ?_ }
    show MadeFrom _ (addMedia (op.requestBody.getD {}).content (mediaTypeName tag) media)
    rw [hcontent]
    exact h.body.addMedia hdescribes

theorem read_addResponse (h : Read bodies responses op)
    (hrun : (addResponse scope tag op).run r = some ((op', []), r')) :
    Read bodies (responses ++ [tag]) op' := by
  obtain ⟨-, found, hmedia, rfl⟩ := addResponse_of_run hrun
  refine { h with responses := fun code => ?_ }
  rw [Operation.describedBy, KeyMap.get?_alter, List.filter_append]
  by_cases hcode : code = statusCodeOf tag
  · subst hcode
    -- a code without a response starts from empty content
    have hcontent : ((op.responses.get? (statusCodeOf tag)).getD {}).content =
        ((op.responses.get? (statusCodeOf tag)).map Response.content).getD ∅ := by
      cases op.responses.get? (statusCodeOf tag) <;> rfl
    rw [if_pos rfl, List.filter_cons_of_pos (by simp)]
    show MadeFrom _ ((found.map (addMedia ((op.responses.get? _).getD {}).content
      (mediaTypeName tag))).getD ((op.responses.get? _).getD {}).content)
    rw [hcontent]
    rcases answers_mediaOf scope tag r _ r' hmedia _ rfl with
      ⟨rfl, hnone⟩ | ⟨media, rfl, hdescribes⟩
    · exact (h.responses _).untyped hnone
    · exact (h.responses _).addMedia hdescribes
  · rw [if_neg hcode, List.filter_cons_of_neg (by simp [Ne.symm hcode]), List.filter_nil,
      List.append_nil]
    exact h.responses code

/-! ## Units

The chains of the standard filters, started on an operation without parameters, bodies and
responses. -/

/-- The tags of a unit that describe the request body in a media type. -/
def bodyDescribing (unit : Element) (name : String) : List Element :=
  describing name ((unit.childrenNamed "param").filter isAboutBody)

/-- The tags of a unit that describe the response of a code in a media type. -/
def responseDescribing (unit : Element) (code name : String) : List Element :=
  describing name ((unit.childrenNamed "response").filter fun tag => statusCodeOf tag = code)

theorem read_applyAll {unit : Element} {id : String} {method : Method}
    (hrun : (OperationFilter.applyAll FilterSet.standard.operation scope unit
      { id := id, method := method }).run r = some ((op, []), r')) :
    Read ((unit.childrenNamed "param").filter isAboutBody) (unit.childrenNamed "response") op := by
  obtain ⟨op₁, q₁, op₂, q₂, hparams, hbodies, hresponses⟩ := applyAll_of_run hrun
  have hstart : Read [] [] (addTexts unit { id := id, method := method }) := by
    rw [addTexts_eq]
    exact ⟨(fun p hp => by cases hp), .empty, fun code => .empty⟩
  -- one chain behind the other; each extends one of the two lists of tags that were read
  have hread :=
    Step.holds_of_chain (fun _ op _ => Read [] [] op) read_addParameter [] hstart hparams
  have hread' :=
    Step.holds_of_chain (fun seen op _ => Read seen [] op) read_addBody [] hread hbodies
  exact Step.holds_of_chain (fun seen op _ => Read _ seen op) read_addResponse [] hread' hresponses

theorem MadeFrom.mergedFrom {name : String} (h : MadeFrom tags content)
    (hmedia : content.get? name = some media) :
    MergedFrom (describing name tags) media.schema := by
  rcases h name with ⟨hnone, -⟩ | ⟨_, hknown, hmerged⟩
  · rw [hnone] at hmedia
    cases hmedia
  · rw [hknown] at hmedia
    cases hmedia
    exact hmerged

/-- All unions of an operation have several alternatives of different shapes. No alternative is a
union itself, if of the tags of a media type only the first one names types of several shapes. -/
theorem unions_of_applyAll {unit : Element} {id : String} {method : Method}
    (hrun : (OperationFilter.applyAll FilterSet.standard.operation scope unit
      { id := id, method := method }).run r = some ((op, []), r')) :
    (∀ p ∈ op.parameters, p.schema.Separated ∧ p.schema.Flat) ∧
    (∀ body name media, op.requestBody = some body → body.content.get? name = some media →
      media.schema.Separated ∧
        ((∀ tag ∈ (bodyDescribing unit name).tail, OneShape tag) → media.schema.Flat)) ∧
    ∀ code response name media, op.responses.get? code = some response →
      response.content.get? name = some media → media.schema.Separated ∧
        ((∀ tag ∈ (responseDescribing unit code name).tail, OneShape tag) →
          media.schema.Flat) := by
  have hread := read_applyAll hrun
  refine ⟨hread.parameters, fun body name media hbody hmedia => ?_,
    fun code response name media hresponse hmedia => ?_⟩
  · have hdocuments := hread.body
    rw [hbody] at hdocuments
    have hmerged := hdocuments.mergedFrom hmedia
    exact ⟨hmerged.separated, hmerged.flat⟩
  · have hdocuments := hread.responses code
    rw [hresponse] at hdocuments
    have hmerged := hdocuments.mergedFrom hmedia
    exact ⟨hmerged.separated, hmerged.flat⟩

/-! ## A shop for pets

Both orders of the same three types over two tags. The union is nested if the second tag names two
of them. -/

/-- A tag about the body, which may be of several types. -/
def petBody (type : String) (others : List String) : Element :=
  let see := others.map fun other => (⟨"see", ∅, [], none⟩ : Element).withAttribute "cref" other
  (((⟨"param", ∅, see, none⟩ : Element).withAttribute "name" "pet").withAttribute "in"
    "body").withAttribute "cref" type

def pets : Resolver := fun name =>
  if name ∈ ["Cat", "Dog", "Bird"] then some (.struct [] [⟨"name", ⟨"String", []⟩, none⟩]) else none

/-- Read the annotations of an operation that takes pets. -/
def takePets (annotations : Element) : Resolving (Operation × List GenerationError) :=
  OperationFilter.applyAll FilterSet.standard.operation ⟨pets, 1, .default, "/a"⟩ annotations
    { id := "postA", method := .post }

/-- A cat, or a dog or a bird. -/
def catOrOthers : Element := ⟨"operation", ∅, [petBody "Cat" [], petBody "Dog" ["Bird"]], none⟩

/-- A cat or a dog, or a bird. -/
def catOrDogOrBird : Element := ⟨"operation", ∅, [petBody "Cat" ["Dog"], petBody "Bird" []], none⟩

def jsonBody? (op : Operation) : Option Schema :=
  op.requestBody.bind fun body => (body.content.get? "application/json").map MediaType.schema

/-- A run without errors whose body passes a check. -/
theorem exists_jsonBody (m : Resolving (Operation × List GenerationError)) (check : Schema → Bool)
    (h : ((m.run {}).any fun found =>
      found.1.2.isEmpty && (jsonBody? found.1.1).any check) = true) :
    ∃ op s body media, m.run {} = some ((op, []), s) ∧ op.requestBody = some body ∧
      body.content.get? "application/json" = some media ∧ check media.schema = true := by
  obtain ⟨⟨⟨op, errors⟩, s⟩, hrun, hfound⟩ := (Option.any_eq_true _ _).1 h
  obtain ⟨hnone, hbody⟩ := Bool.and_eq_true_iff.1 hfound
  obtain rfl : errors = [] := List.isEmpty_iff.1 hnone
  obtain ⟨schema, hschema, hcheck⟩ := (Option.any_eq_true _ _).1 hbody
  obtain ⟨body, hbody, hcontent⟩ := Option.bind_eq_some_iff.1 hschema
  obtain ⟨media, hmedia, rfl⟩ := Option.map_eq_some_iff.1 hcontent
  exact ⟨op, s, body, media, hrun, hbody, hmedia, hcheck⟩

/-- The dog or bird is one alternative to the cat. -/
theorem pets_nested : ∃ op s body media,
    (takePets catOrOthers).run {} = some ((op, []), s) ∧ op.requestBody = some body ∧
      body.content.get? "application/json" = some media ∧
      ∃ gs ∈ media.schema.unions, ∃ g ∈ gs, g.isUnion = true := by
  obtain ⟨op, s, body, media, hrun, hbody, hmedia, hcheck⟩ := exists_jsonBody
    (takePets catOrOthers) (fun schema => schema.anyOf.any fun gs => gs.any isUnion)
    (by decide +kernel)
  obtain ⟨gs, hgs, hany⟩ := (Option.any_eq_true _ _).1 hcheck
  exact ⟨op, s, body, media, hrun, hbody, hmedia, gs, mem_unions_of_anyOf hgs,
    List.any_eq_true.1 hany⟩

/-- The bird is the third alternative. -/
theorem pets_flat : ∃ op s body media,
    (takePets catOrDogOrBird).run {} = some ((op, []), s) ∧ op.requestBody = some body ∧
      body.content.get? "application/json" = some media ∧
      (∃ gs, media.schema.anyOf = some gs ∧ gs.length = 3) ∧
      (∀ tag ∈ (bodyDescribing catOrDogOrBird "application/json").tail, OneShape tag) ∧
      media.schema.Separated ∧ media.schema.Flat := by
  obtain ⟨op, s, body, media, hrun, hbody, hmedia, hcheck⟩ := exists_jsonBody
    (takePets catOrDogOrBird) (fun schema => schema.anyOf.any fun gs => gs.length = 3)
    (by decide +kernel)
  obtain ⟨gs, hgs, hlength⟩ := (Option.any_eq_true _ _).1 hcheck
  have hone : ∀ tag ∈ (bodyDescribing catOrDogOrBird "application/json").tail, OneShape tag := by
    decide +kernel
  obtain ⟨hseparated, hflat⟩ :=
    (unions_of_applyAll hrun).2.1 body "application/json" media hbody hmedia
  exact ⟨op, s, body, media, hrun, hbody, hmedia, ⟨gs, hgs, of_decide_eq_true hlength⟩, hone,
    hseparated, hflat hone⟩

end Tags

end EndpointDocs
