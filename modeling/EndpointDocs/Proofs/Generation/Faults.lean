import EndpointDocs.Proofs.Generation.Returning
import EndpointDocs.Proofs.Registry.Ahead

/-!
# Faulty tags hide nothing

    tags of a unit ────────standard filters────▶ operation, faults
    tags without the faulty ones ──────────────▶ the same operation, no errors

A `param` tag without a name or with an unknown location and a `response` tag without a status code
are faulty (`Tags.faultOf?`). Each of them is reported, those of the parameters first and in the
order of the document, and does nothing else: the operation, and the registry behind it, are those
of the unit without its faulty tags (`Tags.applyAll_withoutFaulty`).

The two runs are kept side by side by `Step.Reports`, which is proved for one tag, for the tags of
one filter and for the filters behind each other. That the types of the other tags are resolved is
asked of every registry that comes up on the way (`Tags.Reached`); with plain names it is enough to
ask it of the first one (`Tags.resolves_iff`).
-/

namespace EndpointDocs

open Registry Resolving

/-! ## Steps that report

A filter is a chain of steps over the operation and the registry, and each step may report errors; a
fatal one ends the chain. `Step.Reports` compares two chains: the one of all tags, and the one of
the tags without faults. Both reach the same operation and the same registry, so that they can be
followed step by step. The class `Q` of registries is what the steps may rely on, and keep. -/

namespace Step

variable {α ι : Type} {Q : Registry → Prop} {step step' : Step α} {rest rest' : List (Step α)}
variable {found more : List GenerationError} {a b c : α} {r q s : Registry}

/-- From the registries of a class the first step does what the second one does without errors, and
gives the listed errors, none of which ends a chain. Both stay in the class. -/
def Reports (Q : Registry → Prop) (errors : List GenerationError) (step step' : Step α) : Prop :=
  anyFatal errors = false ∧ ∀ a r, Q r → ∃ b s,
    (step a).run r = some ((b, errors), s) ∧ (step' a).run r = some ((b, []), s) ∧ Q s

/-- Errors that are not fatal are followed by the rest of a chain and its errors. -/
theorem chain_cons_of_not_fatal (hfatal : anyFatal found = false)
    (h : (step a).run r = some ((b, found), q))
    (hrest : (chain rest b).run q = some ((c, more), s)) :
    (chain (step :: rest) a).run r = some ((c, found ++ more), s) := by
  unfold chain andThen
  rw [run_bind_of_run h]
  dsimp only
  rw [hfatal, if_neg Bool.false_ne_true, run_bind_of_run hrest]
  rfl

namespace Reports

theorem pure {change change' : α → α} (h : change' = change) :
    Reports Q [] (.pure change) (.pure change') := by
  subst h
  exact ⟨rfl, fun a r hr => ⟨change' a, r, rfl, rfl, hr⟩⟩

theorem nil : Reports Q [] (chain ([] : List (Step α))) (chain []) :=
  ⟨rfl, fun a r hr => ⟨a, r, rfl, rfl, hr⟩⟩

theorem cons (h : Reports Q found step step') (hrest : Reports Q more (chain rest) (chain rest')) :
    Reports Q (found ++ more) (chain (step :: rest)) (chain (step' :: rest')) := by
  -- errors that are not fatal in both parts are not fatal together, so that the second part is
  -- reached
  refine ⟨?_, fun a r hr => ?_⟩
  · rw [anyFatal, List.any_append]
    exact Bool.or_eq_false_iff.2 ⟨h.1, hrest.1⟩
  · obtain ⟨b, q, hstep, hstep', hq⟩ := h.2 a r hr
    obtain ⟨c, s, hchain, hchain', hs⟩ := hrest.2 b q hq
    exact ⟨c, s, chain_cons_of_not_fatal h.1 hstep hchain,
      chain_cons_of_not_fatal rfl hstep' hchain', hs⟩

/-- A step that does nothing but report an error may be left out. -/
theorem skip {e : GenerationError} (he : e.isFatal = false)
    (h : ∀ a r, (step a).run r = some ((a, [e]), r))
    (hrest : Reports Q more (chain rest) (chain rest')) :
    Reports Q (e :: more) (chain (step :: rest)) (chain rest') := by
  have hfatal : anyFatal [e] = false := by
    simp [anyFatal, he]
  refine ⟨?_, fun a r hr => ?_⟩
  · rw [anyFatal, List.any_cons, he]
    exact hrest.1
  · obtain ⟨b, s, hchain, hchain', hs⟩ := hrest.2 a r hr
    exact ⟨b, s, chain_cons_of_not_fatal hfatal (h a r) hchain, hchain', hs⟩

/-- The items of a chain that are faulty may be left out. The induction is on the items. -/
theorem filter {items : List ι} {step : ι → Step α} {fault? : ι → Option GenerationError}
    (hfaulty : ∀ i ∈ items, ∀ e, fault? i = some e →
      e.isFatal = false ∧ ∀ a r, (step i a).run r = some ((a, [e]), r))
    (hgood : ∀ i ∈ items, fault? i = none → Reports Q [] (step i) (step i)) :
    Reports Q (items.filterMap fault?) (chain (items.map step))
      (chain ((items.filter fun i => (fault? i).isNone).map step)) := by
  induction items with
  | nil => exact .nil
  | cons i rest ih =>
    have hrest := ih (fun j hj => hfaulty j (List.mem_cons_of_mem _ hj))
      (fun j hj => hgood j (List.mem_cons_of_mem _ hj))
    -- a faulty item is a step that `skip` takes away, any other one is the same on both sides
    cases hfault : fault? i with
    | some e =>
      obtain ⟨he, hstep⟩ := hfaulty i List.mem_cons_self e hfault
      rw [List.filterMap_cons_some hfault, List.filter_cons_of_neg (by simp [hfault]),
        List.map_cons]
      exact .skip he hstep hrest
    | none =>
      rw [List.filterMap_cons_none hfault, List.filter_cons_of_pos (by simp [hfault]),
        List.map_cons, List.map_cons]
      exact .cons (hgood i List.mem_cons_self hfault) hrest

/-- A chain of items without faults. -/
theorem ofItems {items : List ι} {step : ι → Step α}
    (h : ∀ i ∈ items, Reports Q [] (step i) (step i)) :
    Reports Q [] (chain (items.map step)) (chain (items.map step)) := by
  induction items with
  | nil => exact .nil
  | cons i rest ih =>
    exact .cons (h i List.mem_cons_self) (ih fun j hj => h j (List.mem_cons_of_mem _ hj))

end Reports

end Step

namespace Tags

variable {scope : Scope} {unit tag : Element} {op : Operation} {r s start : Registry}

/-! ## Faulty tags

What is wrong with a tag can be told from the tag alone: the filters look for a name, a location and
a status code before they ask for types or look at the operation. So the faults of a unit are known
in advance (`faultsOf`), and the unit without them is a unit like any other. -/

/-- What is wrong with the tag of a parameter, whatever the path. -/
def parameterFault? (tag : Element) : Option Fault :=
  if nameOf tag = "" then some .parameterWithoutName
  else match tag.trimmedAttribute? "in" with
    | none => none
    | some text =>
      if (ParameterLocation.parse? text).isSome then none
      else some (.unknownLocation (nameOf tag) text)

/-- What is wrong with the tag of a response. -/
def responseFault? (tag : Element) : Option Fault :=
  if isStatusCode (statusCodeOf tag) then none else some (.invalidResponseCode (statusCodeOf tag))

/-- The error that a child of a unit gives: only parameters and responses may be faulty. -/
def faultOf? (tag : Element) : Option GenerationError :=
  if tag.name = "param" then
    if isAboutBody tag then none else (parameterFault? tag).map (.fault parameterFilterName)
  else if tag.name = "response" then (responseFault? tag).map (.fault responseFilterName)
  else none

def parametersOf (unit : Element) : List Element :=
  (unit.childrenNamed "param").filter fun p => !isAboutBody p

def bodiesOf (unit : Element) : List Element := (unit.childrenNamed "param").filter isAboutBody

/-- The faults of a unit: those of its parameters, then those of its responses. -/
def faultsOf (unit : Element) : List GenerationError :=
  (parametersOf unit).filterMap faultOf? ++ (unit.childrenNamed "response").filterMap faultOf?

/-- The unit without its faulty tags. -/
def withoutFaulty (unit : Element) : Element :=
  { unit with children := unit.children.filter fun tag => (faultOf? tag).isNone }

theorem name_of_mem_childrenNamed {name : String} (h : tag ∈ unit.childrenNamed name) :
    tag.name = name := by
  simpa using (List.mem_filter.1 h).2

theorem faultOf?_parameter (h : tag ∈ parametersOf unit) :
    faultOf? tag = (parameterFault? tag).map (.fault parameterFilterName) := by
  obtain ⟨hparam, habout⟩ := List.mem_filter.1 h
  have hbody : ¬ isAboutBody tag = true := by simpa using habout
  rw [faultOf?, if_pos (name_of_mem_childrenNamed hparam), if_neg hbody]

/-- A body parameter is not asked for a name or a location. -/
theorem faultOf?_body (h : tag ∈ bodiesOf unit) : faultOf? tag = none := by
  obtain ⟨hparam, habout⟩ := List.mem_filter.1 h
  rw [faultOf?, if_pos (name_of_mem_childrenNamed hparam), if_pos habout]

theorem faultOf?_response (h : tag ∈ unit.childrenNamed "response") :
    faultOf? tag = (responseFault? tag).map (.fault responseFilterName) := by
  have hname := name_of_mem_childrenNamed h
  rw [faultOf?, if_neg (by simp [hname]), if_pos hname]

/-! ### What is left of a unit

The filters other than the two look for children of other names, and find all of them as before. -/

theorem childrenNamed_withoutFaulty (name : String) :
    (withoutFaulty unit).childrenNamed name =
      (unit.childrenNamed name).filter fun tag => (faultOf? tag).isNone := by
  rw [Element.childrenNamed, withoutFaulty, List.filter_comm, Element.childrenNamed]

theorem parametersOf_withoutFaulty :
    parametersOf (withoutFaulty unit) =
      (parametersOf unit).filter fun tag => (faultOf? tag).isNone := by
  rw [parametersOf, childrenNamed_withoutFaulty, List.filter_comm, parametersOf]

theorem bodiesOf_withoutFaulty : bodiesOf (withoutFaulty unit) = bodiesOf unit := by
  have hall : ∀ tag ∈ bodiesOf unit, (faultOf? tag).isNone = true := by
    intro tag h
    rw [faultOf?_body h]
    rfl
  have hkept := List.filter_eq_self.2 hall
  rw [bodiesOf] at hkept
  rw [bodiesOf, childrenNamed_withoutFaulty, List.filter_comm, hkept, bodiesOf]

theorem faultOf?_of_name (hparam : tag.name ≠ "param") (hresponse : tag.name ≠ "response") :
    faultOf? tag = none := by
  rw [faultOf?, if_neg hparam, if_neg hresponse]

theorem childrenNamed_of_other {name : String} (hparam : name ≠ "param")
    (hresponse : name ≠ "response") :
    (withoutFaulty unit).childrenNamed name = unit.childrenNamed name := by
  rw [childrenNamed_withoutFaulty]
  refine List.filter_eq_self.2 fun tag h => ?_
  have hname := name_of_mem_childrenNamed h
  rw [faultOf?_of_name (hname ▸ hparam) (hname ▸ hresponse)]
  rfl

/-- The first child of a name is the first of the children of this name. -/
theorem child?_of_other {name : String} (hparam : name ≠ "param") (hresponse : name ≠ "response") :
    (withoutFaulty unit).child? name = unit.child? name := by
  have hfirst : ∀ e : Element, e.child? name = (e.childrenNamed name).head? := fun e =>
    List.head?_filter.symm
  rw [hfirst, hfirst, childrenNamed_of_other hparam hresponse]

theorem addTexts_withoutFaulty :
    addSummary (withoutFaulty unit) = addSummary unit ∧
      addDescription (withoutFaulty unit) = addDescription unit ∧
        addTags (withoutFaulty unit) = addTags unit := by
  refine ⟨?_, ?_, ?_⟩
  · funext op
    rw [addSummary, addSummary, child?_of_other (by decide) (by decide)]
  · funext op
    rw [addDescription, addDescription, child?_of_other (by decide) (by decide)]
  · funext op
    rw [addTags, addTags, childrenNamed_of_other (by decide) (by decide)]

/-! ## Tags whose types are resolved

A type that is not resolved is a fatal error, and has nothing to do with the tag being well written.
So the types of the remaining tags have to be resolved. The registries on which they are asked for
are those that come up behind the start by resolving and by showing examples, in whatever order
(`Reached`): this keeps the condition free of the order of the tags. -/

/-- The registries that come up while types that the texts name are resolved and examples are
shown. -/
inductive Reached (scope : Scope) (sources : List String) (start : Registry) : Registry → Prop where
  | start : Reached scope sources start start
  | resolve {source : String} {t : TypeExpr} {r s : Registry}
      {answer : Except ResolutionError Schema} : source ∈ sources →
      Source.typeExpr? source = some t → Reached scope sources start r →
      (Registry.resolve scope.resolver scope.depth t scope.variant).run r = some (answer, s) →
      Reached scope sources start s
  | inject {key : String} {sample : Json} {r : Registry} : Reached scope sources start r →
      Reached scope sources start (r.injectSample key scope.variant sample).2

/-- Each of the texts names a type that is resolved on every registry that comes up. -/
def Resolves (scope : Scope) (sources : List String) (start : Registry) : Prop :=
  ∀ source ∈ sources, ∃ t, Source.typeExpr? source = some t ∧
    ∀ r, Reached scope sources start r → ∃ schema s,
      (Registry.resolve scope.resolver scope.depth t scope.variant).run r = some (.ok schema, s)

variable {sources : List String}

section Valid

variable (hresolver : scope.resolver.WellNamed)
  (hstart : Valid scope.resolver TypeExpr.WellNamed start)

include hresolver hstart

/-- What comes up is valid, and nothing is lost on the way. -/
theorem Reached.valid_and_extends (hr : Reached scope sources start r) :
    Valid scope.resolver TypeExpr.WellNamed r ∧ Extends start r := by
  induction hr with
  | start => exact ⟨hstart, .refl start⟩
  | resolve _ ht _ hrun ih =>
    obtain ⟨hvalid, hextends⟩ := ih
    have hcore := fun u => @TypeExpr.wellNamed_of_core? _ u (Source.wellNamed_of_typeExpr? ht)
    have hresolved := resolved_of_run (closed_wellNamed hresolver) hcore hvalid hrun
    exact ⟨hresolved.valid hvalid, hextends.trans hresolved.extends⟩
  | inject _ ih => exact ⟨ih.1.injectSample, ih.2.trans extends_injectSample⟩

/-- With plain names it is enough that the types are resolved on the first registry: what comes up
on the way changes no answer, and takes no more depth. -/
theorem resolves_iff :
    Resolves scope sources start ↔ ∀ source ∈ sources, ∃ t, Source.typeExpr? source = some t ∧
      ∃ schema s, (Registry.resolve scope.resolver scope.depth t scope.variant).run start =
        some (.ok schema, s) := by
  constructor
  · intro h source hsource
    obtain ⟨t, ht, hresolves⟩ := h source hsource
    exact ⟨t, ht, hresolves start .start⟩
  · intro h source hsource
    obtain ⟨t, ht, schema, q, hfirst⟩ := h source hsource
    refine ⟨t, ht, fun r hr => ?_⟩
    obtain ⟨hvalid, hextends⟩ := hr.valid_and_extends hresolver hstart
    obtain ⟨s, hrun⟩ := resolve_on_later hresolver (Source.wellNamed_of_typeExpr? ht) hstart hvalid
      hextends hfirst
    exact ⟨schema, s, hrun⟩

end Valid

/-- The schema of several types is found, and the registry behind it is again one that comes up.
There is a schema unless no type is named. -/
theorem exists_widenByTexts (h : Resolves scope sources start) {texts : List String}
    (htexts : ∀ source ∈ texts, source ∈ sources) (hr : Reached scope sources start r)
    (known : Option Schema) :
    ∃ found s, (widenByTexts scope texts known).run r = some (.ok found, s) ∧
      Reached scope sources start s ∧ (found = none → texts = [] ∧ known = none) := by
  induction texts generalizing known r with
  | nil => exact ⟨known, r, rfl, hr, fun hnone => ⟨rfl, hnone⟩⟩
  | cons source rest ih =>
    obtain ⟨hsource, hrest⟩ := List.forall_mem_cons.1 htexts
    obtain ⟨t, ht, hresolves⟩ := h source hsource
    obtain ⟨schema, q, hrun⟩ := hresolves r hr
    have hq : Reached scope sources start q := .resolve hsource ht hr hrun
    obtain ⟨found, s, hmore, hs, hfound⟩ :=
      ih hrest hq (some ((known.map (·.widen schema)).getD schema))
    refine ⟨found, s, ?_, hs, fun hnone => by cases (hfound hnone).2⟩
    have htext : (schemaOfText scope source).run r = some (.ok schema, q) := by
      rw [schemaOfText, ht]
      exact hrun
    rw [widenByTexts, run_bind_of_run htext]
    exact hmore

theorem exists_mediaOf (h : Resolves scope sources start)
    (htexts : ∀ source ∈ typeTexts tag, source ∈ sources) (hr : Reached scope sources start r) :
    ∃ media s, (mediaOf scope tag).run r = some (.ok media, s) ∧ Reached scope sources start s ∧
      (media = none → typeTexts tag = []) := by
  obtain ⟨found, q, hschema, hq, hfound⟩ := exists_widenByTexts h htexts hr none
  rw [mediaOf, schemaOf, run_bind_of_run hschema]
  cases found with
  | none => exact ⟨none, q, rfl, hq, fun _ => (hfound rfl).1⟩
  | some schema =>
    obtain ⟨media, s, hmedia, -, hs⟩ := exists_mediaOfSchema scope.variant tag schema q
    -- behind the schema an example may have been shown, or not
    have hreached : Reached scope sources start s := by
      rcases hs with rfl | ⟨key, sample, rfl⟩
      · exact hq
      · exact hq.inject
    refine ⟨some media, s, ?_, hreached, fun hnone => by cases hnone⟩
    dsimp only
    rw [run_bind_of_run hmedia]
    rfl

/-! ## The tags of a filter

Each of the three filters of tags is a chain with one step for each tag. A faulty tag reports and
leaves operation and registry alone; a good one does not report. -/

/-- The path only matters to a parameter without a written location, which is never at fault for it.
-/
theorem locationOf_eq_error_iff {fault : Fault} (path : String) :
    locationOf path tag = .error fault ↔ parameterFault? tag = some fault := by
  unfold locationOf parameterFault?
  by_cases hname : nameOf tag = ""
  · simp [hname]
  · cases tag.trimmedAttribute? "in" with
    | none => simp [hname]
    | some text =>
      cases hknown : ParameterLocation.parse? text with
      | none => simp [hname, hknown]
      | some location => simp [hname, hknown]

/-- The location of a parameter that is not at fault. -/
theorem exists_locationOf (h : parameterFault? tag = none) (path : String) :
    ∃ location, locationOf path tag = .ok location := by
  cases hlocation : locationOf path tag with
  | ok location => exact ⟨location, rfl⟩
  | error fault =>
    rw [(locationOf_eq_error_iff path).1 hlocation] at h
    cases h

theorem addParameter_of_fault {e : GenerationError} (htag : tag ∈ parametersOf unit)
    (h : faultOf? tag = some e) :
    e.isFatal = false ∧ ∀ op r, (addParameter scope tag op).run r = some ((op, [e]), r) := by
  rw [faultOf?_parameter htag] at h
  obtain ⟨fault, hfault, rfl⟩ := Option.map_eq_some_iff.1 h
  refine ⟨rfl, fun op r => ?_⟩
  rw [addParameter, (locationOf_eq_error_iff scope.path).2 hfault]
  rfl

theorem addResponse_of_fault {e : GenerationError} (htag : tag ∈ unit.childrenNamed "response")
    (h : faultOf? tag = some e) :
    e.isFatal = false ∧ ∀ op r, (addResponse scope tag op).run r = some ((op, [e]), r) := by
  rw [faultOf?_response htag] at h
  obtain ⟨fault, hfault, rfl⟩ := Option.map_eq_some_iff.1 h
  refine ⟨rfl, fun op r => ?_⟩
  unfold responseFault? at hfault
  split at hfault
  · cases hfault
  · next hcode =>
    cases hfault
    unfold addResponse
    rw [if_neg hcode]
    rfl

section Resolved

variable (h : Resolves scope sources start)
  (htexts : ∀ source ∈ typeTexts tag, source ∈ sources)

include h htexts

/-- A parameter without a fault is added, or it is known already. -/
theorem reports_addParameter (htag : tag ∈ parametersOf unit) (hfault : faultOf? tag = none) :
    Step.Reports (Reached scope sources start) [] (addParameter scope tag)
      (addParameter scope tag) := by
  refine ⟨rfl, fun op r hr => ?_⟩
  rw [faultOf?_parameter htag, Option.map_eq_none_iff] at hfault
  obtain ⟨location, hlocation⟩ := exists_locationOf hfault scope.path
  simp only [addParameter, hlocation]
  by_cases hknown : op.hasParameter (nameOf tag) location = true
  · rw [if_pos hknown]
    exact ⟨op, r, rfl, rfl, hr⟩
  · rw [if_neg hknown]
    obtain ⟨schema, s, hschema, hs, -⟩ := exists_widenByTexts h htexts hr none
    rw [schemaOf, run_bind_of_run hschema]
    exact ⟨_, s, rfl, rfl, hs⟩

/-- A body without a type is an error of its own, hence the condition. -/
theorem reports_addBody (htyped : typeTexts tag ≠ []) :
    Step.Reports (Reached scope sources start) [] (addBody scope tag) (addBody scope tag) := by
  refine ⟨rfl, fun op r hr => ?_⟩
  obtain ⟨media, s, hmedia, hs, htypes⟩ := exists_mediaOf h htexts hr
  rw [addBody, run_bind_of_run hmedia]
  cases media with
  | none => exact absurd (htypes rfl) htyped
  | some media => exact ⟨_, s, rfl, rfl, hs⟩

theorem reports_addResponse (htag : tag ∈ unit.childrenNamed "response")
    (hfault : faultOf? tag = none) :
    Step.Reports (Reached scope sources start) [] (addResponse scope tag)
      (addResponse scope tag) := by
  refine ⟨rfl, fun op r hr => ?_⟩
  rw [faultOf?_response htag, Option.map_eq_none_iff, responseFault?] at hfault
  have hcode : isStatusCode (statusCodeOf tag) = true := by
    by_contra hcode
    rw [if_neg hcode] at hfault
    cases hfault
  obtain ⟨media, s, hmedia, hs, -⟩ := exists_mediaOf h htexts hr
  unfold addResponse
  rw [if_pos hcode, run_bind_of_run hmedia]
  exact ⟨_, s, rfl, rfl, hs⟩

end Resolved

/-! ## Whole units

The standard filters one behind the other. The first three only set texts, which faulty tags have no
part in; the other three are the chains of the last section. -/

/-- The tags of a unit whose types are asked for. -/
def readTags (unit : Element) : List Element :=
  bodiesOf unit ++ (parametersOf unit ++ unit.childrenNamed "response").filter fun tag =>
    (faultOf? tag).isNone

/-- The tags of a unit that are not faulty can be read: bodies have types, and the types of all are
resolved, from the given registry on. -/
structure Readable (scope : Scope) (unit : Element) (start : Registry) : Prop where
  typed : ∀ tag ∈ bodiesOf unit, typeTexts tag ≠ []
  resolves : Resolves scope ((readTags unit).flatMap typeTexts) start

theorem mem_readTags (htag : tag ∈ parametersOf unit ∨ tag ∈ unit.childrenNamed "response")
    (hfault : faultOf? tag = none) : tag ∈ readTags unit :=
  List.mem_append_right _ (List.mem_filter.2 ⟨List.mem_append.2 htag, by simp [hfault]⟩)

theorem mem_flatMap_of_mem_readTags (h : tag ∈ readTags unit) :
    ∀ source ∈ typeTexts tag, source ∈ (readTags unit).flatMap typeTexts :=
  fun _ hsource => List.mem_flatMap.2 ⟨tag, h, hsource⟩

section Readable

variable (h : Readable scope unit start)

include h

theorem reports_parameterFilter :
    Step.Reports (Reached scope ((readTags unit).flatMap typeTexts) start)
      ((parametersOf unit).filterMap faultOf?) (parameterFilter.apply scope unit)
      (parameterFilter.apply scope (withoutFaulty unit)) := by
  show Step.Reports _ _ _ (.chain ((parametersOf (withoutFaulty unit)).map (addParameter scope)))
  rw [parametersOf_withoutFaulty]
  refine .filter (fun tag htag e he => addParameter_of_fault htag he) fun tag htag hfault => ?_
  exact reports_addParameter h.resolves
    (mem_flatMap_of_mem_readTags (mem_readTags (.inl htag) hfault)) htag hfault

theorem reports_requestBodyFilter :
    Step.Reports (Reached scope ((readTags unit).flatMap typeTexts) start) []
      (requestBodyFilter.apply scope unit)
      (requestBodyFilter.apply scope (withoutFaulty unit)) := by
  show Step.Reports _ _ _ (.chain ((bodiesOf (withoutFaulty unit)).map (addBody scope)))
  rw [bodiesOf_withoutFaulty]
  refine .ofItems fun tag htag => ?_
  exact reports_addBody h.resolves (mem_flatMap_of_mem_readTags (List.mem_append_left _ htag))
    (h.typed tag htag)

theorem reports_responseFilter :
    Step.Reports (Reached scope ((readTags unit).flatMap typeTexts) start)
      ((unit.childrenNamed "response").filterMap faultOf?) (responseFilter.apply scope unit)
      (responseFilter.apply scope (withoutFaulty unit)) := by
  show Step.Reports _ _ _
    (.chain (((withoutFaulty unit).childrenNamed "response").map (addResponse scope)))
  rw [childrenNamed_withoutFaulty]
  refine .filter (fun tag htag e he => addResponse_of_fault htag he) fun tag htag hfault => ?_
  exact reports_addResponse h.resolves
    (mem_flatMap_of_mem_readTags (mem_readTags (.inr htag) hfault)) htag hfault

theorem reports_applyAll :
    Step.Reports (Reached scope ((readTags unit).flatMap typeTexts) start) (faultsOf unit)
      (OperationFilter.applyAll FilterSet.standard.operation scope unit)
      (OperationFilter.applyAll FilterSet.standard.operation scope (withoutFaulty unit)) := by
  obtain ⟨hsummary, hdescription, htags⟩ := @addTexts_withoutFaulty unit
  -- the faults by filter, in the order of the filters
  have herrors : faultsOf unit = [] ++ ([] ++ ([] ++ ((parametersOf unit).filterMap faultOf? ++
      ([] ++ ((unit.childrenNamed "response").filterMap faultOf? ++ []))))) := by
    simp [faultsOf]
  rw [herrors]
  exact .cons (.pure hsummary) <| .cons (.pure hdescription) <| .cons (.pure htags) <|
    .cons (reports_parameterFilter h) <| .cons (reports_requestBodyFilter h) <|
    .cons (reports_responseFilter h) .nil

/-- The faulty tags of a unit are reported, and all else is as it would be without them: the
operation, and the registry behind it. -/
theorem applyAll_withoutFaulty (op : Operation) :
    ∃ op' s,
      (OperationFilter.applyAll FilterSet.standard.operation scope unit op).run start =
        some ((op', faultsOf unit), s) ∧
      (OperationFilter.applyAll FilterSet.standard.operation scope (withoutFaulty unit) op).run
        start = some ((op', []), s) := by
  -- the start is the first registry that comes up
  obtain ⟨op', s, hrun, hrun', -⟩ := (reports_applyAll h).2 op start .start
  exact ⟨op', s, hrun, hrun'⟩

end Readable

/-! ## A unit with faulty tags

Three faulty tags among three good ones. The response with a fault names a type that there is not,
which is never asked for. -/

def tagOf (name : String) (attributes : List (String × String)) (children : List Element) :
    Element :=
  attributes.foldl (fun e p => e.withAttribute p.1 p.2) ⟨name, ∅, children, none⟩

/-- Good tags and faulty ones take turns. -/
def visitUnit : Element :=
  ⟨"operation", ∅, [
    tagOf "response" [("code", "teapot"), ("cref", "Nobody")] [],
    tagOf "param" [("in", "query")] [],
    personParameter,
    tagOf "response" [("code", "200"), ("cref", "Person")] [.ofText "example" "Ada"],
    tagOf "param" [("name", "x"), ("in", "matrix")] [],
    tagOf "param" [("name", "guest"), ("in", "body"), ("cref", "Person")] [],
    .ofText "summary" "Announce a visit"], none⟩

def visitScope : Scope := ⟨people, 1, .default, "/visits"⟩

theorem sources_visitUnit :
    (readTags visitUnit).flatMap typeTexts = ["Person", "Person", "Person"] := by rfl

theorem readable_visitUnit : Readable visitScope visitUnit {} where
  typed := by
    have hbodies : bodiesOf visitUnit =
        [tagOf "param" [("name", "guest"), ("in", "body"), ("cref", "Person")] []] := by rfl
    rw [hbodies]
    intro tag htag
    rw [List.mem_singleton.1 htag]
    have htexts : typeTexts (tagOf "param" [("name", "guest"), ("in", "body"), ("cref", "Person")]
        []) = ["Person"] := by rfl
    simp [htexts]
  resolves := by
    refine (resolves_iff wellNamed_people .empty).2 fun source hsource => ?_
    obtain rfl : source = "Person" := by simpa [sources_visitUnit] using hsource
    obtain ⟨s, hrun, -⟩ := resolve_person .empty .default
    exact ⟨person, by rfl, _, s, hrun⟩

theorem applyAll_visitUnit : ∃ op s,
    (OperationFilter.applyAll FilterSet.standard.operation visitScope visitUnit
      (.new "/visits" .post)).run {} =
      some ((op, [.fault parameterFilterName .parameterWithoutName,
        .fault parameterFilterName (.unknownLocation "x" "matrix"),
        .fault responseFilterName (.invalidResponseCode "teapot")]), s) ∧
    (OperationFilter.applyAll FilterSet.standard.operation visitScope (withoutFaulty visitUnit)
      (.new "/visits" .post)).run {} = some ((op, []), s) := by
  have hfaults : faultsOf visitUnit = [.fault parameterFilterName .parameterWithoutName,
      .fault parameterFilterName (.unknownLocation "x" "matrix"),
      .fault responseFilterName (.invalidResponseCode "teapot")] := by rfl
  rw [← hfaults]
  exact applyAll_withoutFaulty readable_visitUnit _

end Tags

end EndpointDocs
