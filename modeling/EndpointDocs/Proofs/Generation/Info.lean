import EndpointDocs.Proofs.Generation.Finishing
import EndpointDocs.Proofs.Generation.Unfinished

/-!
# The info of a document

Title, version and description of a document are found one by one. The elements that may hold them
are the `info` of each block for the variant, in order, and behind them the general one
(`infosFor`); of each part the first that is not blank counts, and title and version fall back on
the settings (`Precedence`).

Two filters write the info. The first one completes it from the settings, which is all there is to
complete, for a document of a run has no info before (`Run.Unfinished`). The second one overwrites
what the configuration sets.
-/

namespace EndpointDocs

namespace DocumentInfo

/-! ## What counts for a variant -/

/-- What stands in the `document` element of a configuration. -/
def documentChildren (config : Option Element) : List Element :=
  ((config.bind (·.child? "document")).map Element.children).getD []

/-- The blocks for a variant: its categorizer and its title are in their attributes. -/
def blocksFor (config : Option Element) (v : Variant) : List Element :=
  (documentChildren config).filter fun block => block.name = "variant" ∧
    block.trimmedAttribute? "categorizer" = some v.categorizer ∧
    block.trimmedAttribute? "title" = some v.title

/-- The general `info` stands in no block. -/
def generalInfo? (config : Option Element) : Option Element :=
  (documentChildren config).find? fun e => e.name = "info"

/-- The `info` elements that count for a variant, the strongest first. -/
def infosFor (config : Option Element) (v : Variant) : List Element :=
  (blocksFor config v).filterMap (·.child? "info") ++ (generalInfo? config).toList

def firstNonEmpty? (texts : List String) : Option String := texts.find? (· ≠ "")

/-- Each part is the first one that is not empty, title and version at last from the settings. -/
structure Precedence (settings : Settings) (config : Option Element) (v : Variant) (info : Info) :
    Prop where
  title : info.title =
    (firstNonEmpty? ((infosFor config v).filterMap (·.trimmedAttribute? "title"))).getD
      settings.title
  version : info.version =
    (firstNonEmpty? ((infosFor config v).filterMap (·.trimmedAttribute? "version"))).getD
      settings.version
  description : info.description = firstNonEmpty? ((infosFor config v).map Element.ownText)

variable {settings : Settings} {config config' : Option Element} {v : Variant} {info info' : Info}

/-- The order determines the info; no block for another variant is in it. -/
theorem Precedence.eq (h : Precedence settings config v info)
    (h' : Precedence settings config' v info') (hblocks : blocksFor config' v = blocksFor config v)
    (hgeneral : generalInfo? config' = generalInfo? config) : info' = info := by
  have hinfos : infosFor config' v = infosFor config v := by
    unfold infosFor
    rw [hblocks, hgeneral]
  obtain ⟨title, version, description⟩ := info
  obtain ⟨title', version', description'⟩ := info'
  obtain ⟨rfl, rfl, rfl⟩ := h
  obtain ⟨rfl, rfl, rfl⟩ := h'
  rw [hinfos]

/-! ## What the filters do -/

theorem isAddressedBy_iff {block : Element} : v.isAddressedBy block = true ↔
    block.name = "variant" ∧ block.trimmedAttribute? "categorizer" = some v.categorizer ∧
      block.trimmedAttribute? "title" = some v.title := by
  unfold Variant.isAddressedBy
  simp only [Bool.and_eq_true, beq_iff_eq, and_assoc]

theorem candidates_eq {document : Element}
    (hdocument : config.bind (·.child? "document") = some document) :
    candidates document v = infosFor config v := by
  have hchildren : documentChildren config = document.children := by
    unfold documentChildren
    rw [hdocument]
    rfl
  have hblocks : document.children.filter v.isAddressedBy = blocksFor config v := by
    unfold blocksFor
    rw [hchildren]
    refine List.filter_congr fun block _ => ?_
    rw [Bool.eq_iff_iff, isAddressedBy_iff, decide_eq_true_iff]
  unfold candidates infosFor generalInfo?
  rw [hblocks, hchildren]
  rfl

/-- An element without the text, or with an empty one, is passed over. -/
theorem findSome?_filter_ne_empty (text? : Element → Option String) (infos : List Element) :
    infos.findSome? (fun e => (text? e).filter (· ≠ "")) =
      firstNonEmpty? (infos.filterMap text?) := by
  unfold firstNonEmpty?
  induction infos with
  | nil => rfl
  | cons e rest ih =>
    rw [List.findSome?_cons]
    cases htext : text? e with
    | none =>
      rw [List.filterMap_cons_none htext, Option.filter_none]
      exact ih
    | some text =>
      rw [List.filterMap_cons_some htext]
      by_cases hempty : text = ""
      · -- an empty text is passed over on both sides
        rw [hempty]
        show rest.findSome? _ = _
        rw [ih, List.find?_cons_of_neg (by simp)]
      · rw [Option.filter_some_pos (by simpa using hempty), List.find?_cons_of_pos (by simpa)]

theorem findSome?_nonEmptyText? (infos : List Element) :
    infos.findSome? Element.nonEmptyText? = firstNonEmpty? (infos.map Element.ownText) := by
  have hfilter : Element.nonEmptyText? = fun e => (some e.ownText).filter (· ≠ "") := by
    funext e
    unfold Element.nonEmptyText?
    by_cases hempty : e.ownText = "" <;> simp [hempty, Option.filter]
  rw [hfilter, findSome?_filter_ne_empty, List.filterMap_eq_map']

end DocumentInfo

/-! ## Runs -/

open DocumentInfo

/-- Without info before, a finished document has the info in the order of precedence. -/
theorem Plan.precedence_finished {settings : Settings} {resolver : Resolver} {depth : Nat}
    {config : Option Element} {run : Run} {v : Variant} {d : Document} (hinfo : d.info = {}) :
    Precedence settings config v
      ((Plan.ofConfig .standard settings resolver depth config).finished run v d).info := by
  have hcomplete : complete settings d.info = ⟨settings.title, settings.version, none⟩ := by
    rw [hinfo]
    rfl
  unfold Plan.finished Plan.ofConfig
  dsimp only
  rw [hcomplete]
  -- without a block no candidate is there, and the settings stand
  cases hdocument : config.bind (·.child? "document") with
  | none =>
    have hinfos : infosFor config v = [] := by
      unfold infosFor blocksFor generalInfo? documentChildren
      rw [hdocument]
      rfl
    constructor <;> rw [hinfos] <;> rfl
  | some document =>
    rw [Option.map_some, Option.getD_some, candidates_eq hdocument]
    unfold configure nonEmptyAttribute?
    simp only [findSome?_filter_ne_empty, findSome?_nonEmptyText?]
    exact ⟨rfl, rfl, by simp⟩

/-- Title, version and description of a document come from the blocks for its variant, then from the
general `info`, then from the settings. Nothing else changes them: not the blocks for other
variants, and not the annotations, to which all documents are due. -/
theorem info_of_generate {settings : Settings} {resolver : Resolver} {depth : Nat}
    {config : Option Element} {annotations : Element} {result : GenerationResult} {v : Variant}
    {d : Document}
    (hrun : (Plan.ofConfig .standard settings resolver depth config).generate annotations =
      some result)
    (hd : result.documents.get? v = some d) :
    Precedence settings config v d.info ∧
      ∀ resolver' depth' config' annotations' result' d',
        (Plan.ofConfig .standard settings resolver' depth' config').generate annotations' =
          some result' →
        result'.documents.get? v = some d' → blocksFor config' v = blocksFor config v →
        generalInfo? config' = generalInfo? config → d'.info = d.info := by
  -- every run has the order of precedence, whatever its units and its resolver are
  have hprecedence : ∀ {resolver depth config annotations result d},
      (Plan.ofConfig .standard settings resolver depth config).generate annotations =
        some result →
      result.documents.get? v = some d → Precedence settings config v d.info := by
    intro resolver depth config annotations result d hrun hd
    obtain ⟨outcomes, run, d', hunits, hd', rfl⟩ := exists_document_of_generate rfl hrun hd
    exact Plan.precedence_finished (unfinished_of_processUnits hunits v d' hd').info
  have hfirst := hprecedence hrun hd
  refine ⟨hfirst, ?_⟩
  intro resolver' depth' config' annotations' result' d' hrun' hd' hblocks hgeneral
  exact hfirst.eq (hprecedence hrun' hd') hblocks hgeneral

/-! ## A portal -/

def infoElement (title text : String) : Element :=
  (Element.ofText "info" text).withAttribute "title" title

def audienceBlock (title : String) (info : Element) : Element :=
  ((⟨"variant", ∅, [info], none⟩ : Element).withAttribute "categorizer" "audience").withAttribute
    "title" title

/-- Two blocks are for partners: the title is blank in the first one. -/
def portalConfig (staffTitle : String) : Element :=
  ⟨"config", ∅, [⟨"variant", ∅, [.ofText "name" "audience"], none⟩, ⟨"document", ∅,
    [(infoElement "All" "For all").withAttribute "version" "2",
      audienceBlock "partners" (infoElement " " "For partners"),
      audienceBlock "staff" (infoElement staffTitle "For staff"),
      audienceBlock " partners " (infoElement "Partner API" "More")], none⟩], none⟩

def portalPlan (staffTitle : String) : Plan :=
  .ofConfig .standard {} (fun _ => none) 0 (some (portalConfig staffTitle))

def portal (path : String) : Element :=
  ⟨"doc", ∅, [⟨"operation", ∅, [.ofText "url" path, .ofText "verb" "get",
    .ofText "audience" "partners"], none⟩], none⟩

theorem info_portal : ∃ result result' d d',
    (portalPlan "Internal").generate (portal "/a") = some result ∧
      result.documents.get? ⟨"audience", "partners"⟩ = some d ∧
      (portalPlan "Private").generate (portal "/b") = some result' ∧
      result'.documents.get? ⟨"audience", "partners"⟩ = some d' ∧
      d.info = ⟨"Partner API", "2", some "For partners"⟩ ∧ d'.info = d.info := by
  -- both documents are there, so that the theorem has something to be about
  have hsome : (((portalPlan "Internal").generate (portal "/a")).bind
      (·.documents.get? ⟨"audience", "partners"⟩)).isSome = true := by decide +kernel
  have hsome' : (((portalPlan "Private").generate (portal "/b")).bind
      (·.documents.get? ⟨"audience", "partners"⟩)).isSome = true := by decide +kernel
  obtain ⟨d, hd⟩ := Option.isSome_iff_exists.1 hsome
  obtain ⟨d', hd'⟩ := Option.isSome_iff_exists.1 hsome'
  obtain ⟨result, hrun, hd⟩ := Option.bind_eq_some_iff.1 hd
  obtain ⟨result', hrun', hd'⟩ := Option.bind_eq_some_iff.1 hd'
  obtain ⟨hprecedence, hframe⟩ := info_of_generate hrun hd
  refine ⟨result, result', d, d', hrun, hd, hrun', hd', ?_, ?_⟩
  · have htitle : d.info.title = "Partner API" := hprecedence.title.trans (by decide +kernel)
    have hversion : d.info.version = "2" := hprecedence.version.trans (by decide +kernel)
    have hdescription : d.info.description = some "For partners" :=
      hprecedence.description.trans (by decide +kernel)
    rw [← htitle, ← hversion, ← hdescription]
  · exact hframe _ _ _ _ _ _ hrun' hd' (by decide +kernel) (by decide +kernel)

end EndpointDocs
