import EndpointDocs.CommandLine
import EndpointDocs.Proofs.FileSystem.Flat
import EndpointDocs.Proofs.Generation.Building
import EndpointDocs.Proofs.Generation.Finishing

/-!
# The files of a run

A run that ends with a directory for documents has written each document of the result into it: what
a variant's file name leads to is its document, unless a later variant has the same file name. A
result that goes to a file is there at the end, unless the file is that of a document
(`CommandLine.outputs_of_run`). Both may happen: file names keep letters and digits only
(`CommandLine.document_lost`). Variants that stand in file names as they are have names of their own
(`Variant.fileName_inj`), and none of their documents is lost.
-/

namespace EndpointDocs

/-! ## File names

The name of the file of a variant is made of its two texts, in which most characters are replaced.
What is needed of it here: that it is one name and not a path, and when two variants have the same.
-/

/-- A file name holds no separator of paths. -/
theorem slash_not_mem_fileName (v : Variant) (format : Format) :
    '/' ∉ (v.fileName format).toList := by
  have hpart : ∀ s : String, '/' ∉ (fileNamePart s).toList := by
    intro s hmem
    rw [fileNamePart, String.toList_ofList] at hmem
    obtain ⟨c, -, hc⟩ := List.mem_map.1 hmem
    -- a character stays only if it is a letter, a digit, a hyphen or a bar
    split at hc
    · next hstays =>
      subst hc
      revert hstays
      decide
    · revert hc
      decide
  unfold Variant.fileName
  split
  · cases format <;> decide
  · -- what stands between the parts is fixed
    have hfixed : '/' ∉ "openapi-".toList ∧ '/' ∉ "-".toList ∧ '/' ∉ ".".toList := by decide
    have hextension : '/' ∉ format.extension.toList := by cases format <;> decide
    simp only [String.toList_append, List.mem_append, not_or]
    exact ⟨⟨⟨⟨⟨hfixed.1, hpart _⟩, hfixed.2.1⟩, hpart _⟩, hfixed.2.2⟩, hextension⟩

/-- The texts of the variant stand in file names as they are, and the hyphen between them is the
first one. -/
structure Variant.Plain (v : Variant) : Prop where
  categorizer : ∀ c ∈ v.categorizer.toList, staysInFileName c = true ∧ c ≠ '-'
  title : ∀ c ∈ v.title.toList, staysInFileName c = true

theorem fileNamePart_of_stays {s : String} (h : ∀ c ∈ s.toList, staysInFileName c = true) :
    fileNamePart s = s := by
  have hmap : s.toList.map (fun c => if staysInFileName c then c else '_') = s.toList :=
    (List.map_congr_left fun c hc => if_pos (h c hc)).trans (List.map_id _)
  rw [fileNamePart, hmap, String.ofList_toList]

/-- What stands around the first hyphens of equal texts is equal. -/
theorem append_hyphen_inj {cs ds ts us : List Char} (hc : '-' ∉ cs) (hd : '-' ∉ ds)
    (h : cs ++ '-' :: ts = ds ++ '-' :: us) : cs = ds ∧ ts = us := by
  have hfront : ∀ {front : List Char} (more : List Char), '-' ∉ front →
      (front ++ '-' :: more).takeWhile (· != '-') = front := by
    intro front more hnone
    have hstays : ∀ c ∈ front, (c != '-') = true :=
      fun c hc => bne_iff_ne.2 (ne_of_mem_of_not_mem hc hnone)
    rw [List.takeWhile_append_of_pos hstays]
    simp
  have hsame : cs = ds := by rw [← hfront ts hc, h, hfront us hd]
  subst hsame
  exact ⟨rfl, (List.cons.inj (List.append_cancel_left h)).2⟩

/-- Plain variants have file names of their own. -/
theorem Variant.fileName_inj {v w : Variant} {format : Format} (hv : v.Plain) (hw : w.Plain)
    (h : v.fileName format = w.fileName format) : v = w := by
  have hdefault : ∀ u : Variant, u.isDefault = true → u = .default := by
    rintro ⟨c, t⟩ hu
    simpa [isDefault, Variant.default] using hu
  have hchars := congrArg String.toList h
  unfold fileName at hchars
  split at hchars <;> split at hchars
  · next hv' hw' => exact (hdefault v hv').trans (hdefault w hw').symm
  · simp at hchars
  · simp at hchars
  -- of plain variants the texts can be read off the name, around its first free hyphen
  · rw [fileNamePart_of_stays fun c hc => (hv.categorizer c hc).1, fileNamePart_of_stays hv.title,
      fileNamePart_of_stays fun c hc => (hw.categorizer c hc).1, fileNamePart_of_stays hw.title]
      at hchars
    simp only [String.toList_append, List.append_assoc] at hchars
    obtain ⟨hcategorizer, htitle⟩ := append_hyphen_inj
      (fun hmem => (hv.categorizer _ hmem).2 rfl) (fun hmem => (hw.categorizer _ hmem).2 rfl)
      (List.append_cancel_left hchars)
    obtain ⟨c, t⟩ := v
    obtain ⟨d, u⟩ := w
    cases String.toList_injective hcategorizer
    cases String.toList_injective (List.append_cancel_right htitle)
    rfl

/-! ## Writing

The result is written first, if it goes to a file, and then the documents in the order of their
variants. So a document is lost to a later one only. -/

namespace CommandLine

variable {depth : Nat} {files : FileSystem} {a : Arguments} {done : Completed}

/-- A run writes the result that it compiled. -/
theorem writeAll_of_run (h : run depth files a = .ok done) :
    compile depth files.at? a = .ok done.result ∧
      files.writeAll (writes a done.result) = (.ok (), done.files) := by
  unfold run at h
  cases hcompile : compile depth files.at? a with
  | error e =>
    rw [hcompile] at h
    cases h
  | ok result =>
    simp only [hcompile, bind, Except.bind] at h
    split at h
    · next hwritten =>
      cases h
      exact ⟨rfl, hwritten⟩
    · cases h

theorem writes_of_directory {directory : String} (hdirectory : a.documentsDir = some directory)
    (result : GenerationResult) :
    writes a result = (a.output.map fun path => (path, resultText a result)).toList ++
      documentFiles a.format directory result.documents := by
  rw [writes, hdirectory]
  rfl

theorem mem_documentFiles {format : Format} {directory : String} {documents : Documents}
    {x : String × String} : x ∈ documentFiles format directory documents ↔
      ∃ v d, documents.get? v = some d ∧
        x = (FilePath.join directory (v.fileName format), format.render d.toJson) := by
  simp only [documentFiles, List.mem_map, Prod.exists, KeyMap.mem_entries_iff, eq_comm]

/-- The document of a variant stands in front of those of the later variants. -/
theorem documentFiles_eq_append {documents : Documents} {v : Variant} {d : Document}
    (hd : documents.get? v = some d) (format : Format) (directory : String) :
    ∃ before after, documentFiles format directory documents =
        before ++ (FilePath.join directory (v.fileName format), format.render d.toJson) :: after ∧
      ∀ x ∈ after, ∃ w, v < w ∧ documents.contains w = true ∧
        x.1 = FilePath.join directory (w.fileName format) := by
  obtain ⟨before, after, hentries⟩ := List.append_of_mem (KeyMap.mem_entries_iff.2 hd)
  refine ⟨_, _, by rw [documentFiles, hentries, List.map_append, List.map_cons], fun x hx => ?_⟩
  obtain ⟨p, hp, rfl⟩ := List.mem_map.1 hx
  have hascending := documents.ascending
  rw [hentries] at hascending
  have hmem : p ∈ documents.entries :=
    hentries ▸ List.mem_append_right _ (List.mem_cons_of_mem _ hp)
  exact ⟨p.1, (List.pairwise_cons.1 (List.pairwise_append.1 hascending).2.1).1 p hp,
    KeyMap.contains_iff.2 ⟨p.2, KeyMap.mem_entries_iff.1 hmem⟩, rfl⟩

/-! ## What is there at the end

A file system is written to by places, not by paths: two paths may lead to one place, and a write to
it undoes the one before. That a write came last at its place is shown by the file names, since the
place of a document ends with its file name. -/

section Outputs

variable {directory : String} (hfiles : files.tree.Ordered) (hrun : run depth files a = .ok done)
variable (hdirectory : a.documentsDir = some directory)

include hfiles hrun hdirectory

/-- The path of a document leads to a place of its file name. -/
theorem exists_place_of_document {v : Variant} (hv : done.result.documents.contains v = true) :
    ∃ place, done.files.locate? (FilePath.join directory (v.fileName a.format)) = some place ∧
      place.getLast? = some (v.fileName a.format) := by
  obtain ⟨-, hwritten⟩ := writeAll_of_run hrun
  obtain ⟨d, hd⟩ := KeyMap.contains_iff.1 hv
  have hplaces := (FileSystem.writtenAll_of_writeAll hfiles hwritten).places
  obtain ⟨place, hplace, hlast⟩ := hplaces _ <| by
    rw [writes_of_directory hdirectory]
    exact List.mem_append_right _ (mem_documentFiles.2 ⟨v, d, hd, rfl⟩)
  exact ⟨place, hplace,
    hlast.trans (FilePath.getLast?_parts_join directory (slash_not_mem_fileName v _))⟩

/-- Documents with different file names are at different places. -/
theorem fileName_eq_of_locate? {v w : Variant} (hv : done.result.documents.contains v = true)
    (hw : done.result.documents.contains w = true)
    (hsame : done.files.locate? (FilePath.join directory (w.fileName a.format)) =
      done.files.locate? (FilePath.join directory (v.fileName a.format))) :
    w.fileName a.format = v.fileName a.format := by
  obtain ⟨place, hplace, hlast⟩ := exists_place_of_document hfiles hrun hdirectory hv
  obtain ⟨place', hplace', hlast'⟩ := exists_place_of_document hfiles hrun hdirectory hw
  rw [hplace, hplace'] at hsame
  cases hsame
  exact Option.some.inj (hlast'.symm.trans hlast)

/-- A document is not at the place of a result with a different name. -/
theorem locate?_ne_of_name {output : String} (houtput : a.output = some output) {v : Variant}
    (hv : done.result.documents.contains v = true)
    (hname : (FilePath.parts output).getLast? ≠ some (v.fileName a.format)) :
    done.files.locate? (FilePath.join directory (v.fileName a.format)) ≠
      done.files.locate? output := by
  obtain ⟨-, hwritten⟩ := writeAll_of_run hrun
  obtain ⟨place, hplace, hlast⟩ := exists_place_of_document hfiles hrun hdirectory hv
  obtain ⟨place', hplace', hlast'⟩ := (FileSystem.writtenAll_of_writeAll hfiles hwritten).places
      (output, resultText a done.result) <| by
    rw [writes_of_directory hdirectory, houtput]
    exact List.mem_append_left _ (List.mem_singleton_self _)
  intro hsame
  rw [hplace, hplace'] at hsame
  cases hsame
  exact hname (hlast'.symm.trans hlast)

/-- A document is in its file unless a later one has the same file name. -/
theorem at?_document_of_run {v : Variant} {d : Document}
    (hd : done.result.documents.get? v = some d)
    (hlater : ∀ w, v < w → done.result.documents.contains w = true →
      w.fileName a.format ≠ v.fileName a.format) :
    done.files.at? (FilePath.join directory (v.fileName a.format)) =
      some (.ofText (a.format.render d.toJson)) := by
  obtain ⟨-, hwritten⟩ := writeAll_of_run hrun
  obtain ⟨before, after, hdocuments, hafter⟩ := documentFiles_eq_append hd a.format directory
  rw [writes_of_directory hdirectory, hdocuments, ← List.append_assoc] at hwritten
  -- what is written later at this place would be a document of the same file name
  refine FileSystem.at?_of_writeAll hfiles hwritten fun x hx hsame => ?_
  obtain ⟨w, hvw, hw, hpath⟩ := hafter x hx
  rw [hpath] at hsame
  exact hlater w hvw hw (fileName_eq_of_locate? hfiles hrun hdirectory
    (KeyMap.contains_iff.2 ⟨d, hd⟩) hw hsame)

/-- The result is in its file unless a document has the same place. -/
theorem at?_result_of_run {output : String} (houtput : a.output = some output)
    (hother : ∀ v, done.result.documents.contains v = true →
      done.files.locate? (FilePath.join directory (v.fileName a.format)) ≠
        done.files.locate? output) :
    done.files.at? output = some (.ofText (resultText a done.result)) := by
  obtain ⟨-, hwritten⟩ := writeAll_of_run hrun
  rw [writes_of_directory hdirectory, houtput] at hwritten
  -- the result is written first
  have hfirst : files.writeAll ([] ++ (output, resultText a done.result) ::
      documentFiles a.format directory done.result.documents) = (.ok (), done.files) := hwritten
  refine FileSystem.at?_of_writeAll hfiles hfirst fun x hx => ?_
  obtain ⟨v, d, hd, rfl⟩ := mem_documentFiles.1 hx
  exact hother v (KeyMap.contains_iff.2 ⟨d, hd⟩)

/-- Of plain variants no document is lost. -/
theorem at?_document_of_plain
    (hplain : ∀ v, done.result.documents.contains v = true → v.Plain) {v : Variant} {d : Document}
    (hd : done.result.documents.get? v = some d) :
    done.files.at? (FilePath.join directory (v.fileName a.format)) =
      some (.ofText (a.format.render d.toJson)) := by
  refine at?_document_of_run hfiles hrun hdirectory hd fun w hvw hw hname => ?_
  have hsame := Variant.fileName_inj (hplain w hw) (hplain v (KeyMap.contains_iff.2 ⟨d, hd⟩)) hname
  exact OrderedKey.irrefl v (hsame ▸ hvw)

/-- What a run has written: the document of each variant, and the result. -/
theorem outputs_of_run :
    (∀ v d, done.result.documents.get? v = some d →
      (∀ w, v < w → done.result.documents.contains w = true →
        w.fileName a.format ≠ v.fileName a.format) →
      done.files.at? (FilePath.join directory (v.fileName a.format)) =
        some (.ofText (a.format.render d.toJson))) ∧
    ∀ output, a.output = some output →
      (∀ v, done.result.documents.contains v = true →
        done.files.locate? (FilePath.join directory (v.fileName a.format)) ≠
          done.files.locate? output) →
      done.files.at? output = some (.ofText (resultText a done.result)) :=
  ⟨fun _ _ => at?_document_of_run hfiles hrun hdirectory,
    fun _ => at?_result_of_run hfiles hrun hdirectory⟩

end Outputs

/-! ## A run from its parts

The other direction, for runs that are to be followed: the parts of a run put together. -/

/-- Compiling is checking the arguments, loading what they name, and generating. -/
theorem compile_of_load {look : String → Option FileTree} {path : String}
    {annotations config : Element} {sources : SourceFiles} {result : GenerationResult}
    (hcheck : check look a = .ok ())
    (hannotations : Element.load look a.annotations = .ok annotations)
    (hpath : a.config = some path) (hconfig : Element.load look path = .ok config)
    (hsources : SourceFiles.load look a.modulePaths = .ok sources)
    (hgenerate : (Plan.ofConfig .standard (settings a) sources.resolver depth
      (some config)).generate annotations = some result) :
    compile depth look a = .ok result := by
  unfold compile
  rw [hcheck, hannotations, hpath, hsources]
  simp only [hconfig, Except.mapError, Except.map, bind, Except.bind, hgenerate]
  rfl

theorem run_of_compile {result : GenerationResult} {files' : FileSystem}
    (hcompile : compile depth files.at? a = .ok result)
    (hwritten : files.writeAll (writes a result) = (.ok (), files')) :
    run depth files a = .ok ⟨result, printed a result, files'⟩ := by
  unfold run
  simp only [hcompile, bind, Except.bind, hwritten]
  rfl

end CommandLine

/-! ## Two titles with one file name

A service with two operations whose titles differ in one character that no file name keeps. The run
is put together from its parts: the input is read, the two units are taken up, and the four files
are written into a flat directory. -/

/-- An operation in the default document and in that of a title. -/
def titledUnit (url title : String) : Element :=
  ⟨"operation", ∅, [.ofText "url" url, .ofText "verb" "get", .ofText "t" title], none⟩

def titledService : Element := ⟨"doc", ∅, [titledUnit "/a" "a b", titledUnit "/b" "a.b"], none⟩

def titleConfig : Element := ⟨"config", ∅, [⟨"variant", ∅, [.ofText "name" "t"], none⟩], none⟩

def titlePlan : Plan := .ofConfig .standard {} (SourceFiles.resolver {}) 0 (some titleConfig)

def Run.addTitled (run : Run) (url title : String) : Run :=
  run.commitAll (titledUnit url title) url
    [(.default, .new url .get), (⟨"t", title⟩, .new url .get)]

/-- Nothing is wrong with a unit of which nothing is taken. -/
theorem processUnit_titledUnit (run : Run) (url title : String) (hregistry : run.registry = {})
    (hof : Endpoint.of? (titledUnit url title) = some (url, .get))
    (hvariants : variantsForUnit (titledUnit url title) ["t"] = [.default, ⟨"t", title⟩])
    (hfree : duplicateErrors run.documents url .get [.default, ⟨"t", title⟩] = []) :
    ∃ o, processUnit titlePlan run (titledUnit url title) = some (o, run.addTitled url title) := by
  have hcategorizers : titlePlan.categorizers = ["t"] := by decide +kernel
  -- the unit is built for the default variant and that of its title
  have hbuilt : (buildVariants titlePlan (titledUnit url title) url .get
      [.default, ⟨"t", title⟩]).run {} =
        some (⟨[(.default, .new url .get), (⟨"t", title⟩, .new url .get)], []⟩, {}) := by rfl
  rw [processUnit_of_endpoint hof, addUnit_eq, hcategorizers, hvariants, hregistry, hbuilt,
    Option.map_some, Run.settle_of_free hfree, if_neg (fun h => h rfl), ← hregistry]
  exact ⟨_, rfl⟩

def titledRun : Run := (Run.addTitled {} "/a" "a b").addTitled "/b" "a.b"

/-- The documents as they are finished. -/
def titledDocuments : Documents := titledRun.documents.mapValues (titlePlan.finished titledRun)

theorem generate_titledService : ∃ outcomes, titlePlan.generate titledService =
    some ⟨outcomes, titledDocuments, titledRun.registry⟩ := by
  have hunits : titledService.operations = [titledUnit "/a" "a b", titledUnit "/b" "a.b"] := by
    decide +kernel
  obtain ⟨o, hfirst⟩ := processUnit_titledUnit {} "/a" "a b" rfl
    (by decide +kernel) (by decide +kernel) (by decide +kernel)
  obtain ⟨o', hsecond⟩ := processUnit_titledUnit (Run.addTitled {} "/a" "a b") "/b" "a.b" rfl
    (by decide +kernel) (by decide +kernel) (by decide +kernel)
  have hrun : processUnits titlePlan titledService.operations {} = some ([o, o'], titledRun) := by
    rw [hunits]
    exact processUnits_cons.2
      ⟨_, _, _, hfirst, processUnits_cons.2 ⟨_, _, _, hsecond, rfl, rfl⟩, rfl⟩
  exact ⟨_, generate_of_run rfl (hunits ▸ List.cons_ne_nil _ _) hrun⟩

namespace CommandLine

def titledArguments : Arguments where
  annotations := "a.json"
  config := some "c.json"
  format := .json
  output := some "r.json"
  documentsDir := some "."

/-- The two input files in the current directory. -/
def titledFiles : FileSystem :=
  ((FileSystem.emptyIn "work").put ["work", "a.json"] (Json.compact titledService.toJson)).put
    ["work", "c.json"] (Json.compact titleConfig.toJson)

theorem flat_titledFiles : titledFiles.Flat := ((FileSystem.flat_emptyIn "work").put _ _).put _ _

theorem at?_titledFiles :
    titledFiles.at? "a.json" = some (.ofText (Json.compact titledService.toJson)) ∧
    titledFiles.at? "c.json" = some (.ofText (Json.compact titleConfig.toJson)) := by
  have hempty := FileSystem.flat_emptyIn "work"
  have hfirst := hempty.put "a.json" (Json.compact titledService.toJson)
  constructor
  · refine flat_titledFiles.at?_of_beside
      (FilePath.beside_name (by decide +kernel) (by decide +kernel) (by decide +kernel)) ?_
    exact (hfirst.get?_put "c.json" "a.json" _).trans
      ((if_neg (by decide)).trans ((hempty.get?_put "a.json" "a.json" _).trans (if_pos rfl)))
  · refine flat_titledFiles.at?_of_beside
      (FilePath.beside_name (by decide +kernel) (by decide +kernel) (by decide +kernel)) ?_
    exact (hfirst.get?_put "c.json" "c.json" _).trans (if_pos rfl)

theorem compile_titled : ∃ outcomes, compile 0 titledFiles.at? titledArguments =
    .ok ⟨outcomes, titledDocuments, titledRun.registry⟩ := by
  have hannotations : Element.load titledFiles.at? "a.json" = .ok titledService :=
    Element.load_of_read at?_titledFiles.1
      ((Element.readJson?_ofList _).trans (by decide +kernel))
  have hconfig : Element.load titledFiles.at? "c.json" = .ok titleConfig :=
    Element.load_of_read at?_titledFiles.2
      ((Element.readJson?_ofList _).trans (by decide +kernel))
  have hcheck : check titledFiles.at? titledArguments = .ok () := by
    simp only [check, isFileAt, titledArguments, at?_titledFiles, FileTree.ofText, Option.any_some,
      FileTree.isFile, Option.filter]
    rfl
  obtain ⟨outcomes, hgenerate⟩ := generate_titledService
  exact ⟨outcomes, compile_of_load hcheck hannotations rfl hconfig rfl hgenerate⟩

/-- The document of a title. -/
def titledDocument (url title : String) : Document :=
  titlePlan.finished titledRun ⟨"t", title⟩ (({} : Document).addOperation url (.new url .get))

theorem entries_titledDocuments : ∃ d, titledDocuments.entries = [(.default, d),
    (⟨"t", "a b"⟩, titledDocument "/a" "a b"), (⟨"t", "a.b"⟩, titledDocument "/b" "a.b")] :=
  ⟨_, rfl⟩

/-- The three variants that have documents. -/
theorem mem_titledDocuments {v : Variant} (hv : titledDocuments.contains v = true) :
    v = .default ∨ v = ⟨"t", "a b"⟩ ∨ v = ⟨"t", "a.b"⟩ := by
  obtain ⟨d, hd⟩ := KeyMap.contains_iff.1 hv
  obtain ⟨first, hentries⟩ := entries_titledDocuments
  have hmem := hentries ▸ KeyMap.mem_entries_iff.2 hd
  simp only [List.mem_cons, Prod.mk.injEq, List.not_mem_nil, or_false] at hmem
  exact hmem.imp And.left (.imp And.left And.left)

theorem fileName_titled : Variant.fileName ⟨"t", "a b"⟩ .json = "openapi-t-a_b.json" ∧
    Variant.fileName ⟨"t", "a.b"⟩ .json = "openapi-t-a_b.json" := by
  decide +kernel

theorem run_titled : ∃ done, run 0 titledFiles titledArguments = .ok done ∧
    done.result.documents = titledDocuments := by
  obtain ⟨outcomes, hcompile⟩ := compile_titled
  have hresult : FilePath.Beside "r.json" "r.json" :=
    FilePath.beside_name (by decide +kernel) (by decide +kernel) (by decide +kernel)
  -- every path that is written leads beside the other files, so no write fails
  let result : GenerationResult := ⟨outcomes, titledDocuments, titledRun.registry⟩
  have hwritten : ∃ files,
      titledFiles.writeAll (writes titledArguments result) = (.ok (), files) := by
    refine flat_titledFiles.exists_writeAll fun x hx => ?_
    rw [writes_of_directory rfl] at hx
    rcases List.mem_append.1 hx with hx | hx
    · cases List.mem_singleton.1 hx
      exact ⟨_, hresult⟩
    · obtain ⟨v, d, hd, rfl⟩ := mem_documentFiles.1 hx
      have hfree := slash_not_mem_fileName v .json
      rcases mem_titledDocuments (KeyMap.contains_iff.2 ⟨d, hd⟩) with rfl | rfl | rfl <;>
        exact ⟨_, FilePath.beside_join (by decide +kernel) (by decide +kernel) hfree⟩
  obtain ⟨files, hwritten⟩ := hwritten
  exact ⟨_, run_of_compile hcompile hwritten, rfl⟩

/-- Of the texts of two titles the last one is there. -/
theorem at?_titled {done : Completed} (hrun : run 0 titledFiles titledArguments = .ok done)
    (hdocuments : done.result.documents = titledDocuments) :
    done.files.at? (FilePath.join "." "openapi-t-a_b.json") =
      some (.ofText (Format.json.render (titledDocument "/b" "a.b").toJson)) := by
  obtain ⟨d, hentries⟩ := entries_titledDocuments
  have hd : done.result.documents.get? ⟨"t", "a.b"⟩ = some (titledDocument "/b" "a.b") := by
    rw [hdocuments]
    exact KeyMap.mem_entries_iff.1 (by rw [hentries]; simp)
  -- no later variant has this file name, as there is no later variant
  have hlast := at?_document_of_run flat_titledFiles.ordered hrun rfl hd fun w hlater hw => by
    rw [hdocuments] at hw
    rcases mem_titledDocuments hw with rfl | rfl | rfl
    · exact absurd hlater (by decide +kernel)
    · exact absurd hlater (by decide +kernel)
    · exact absurd hlater (OrderedKey.irrefl _)
  rw [← fileName_titled.2]
  exact hlast

theorem outputs_titled : ∃ done d, titledFiles.tree.Ordered ∧
    run 0 titledFiles titledArguments = .ok done ∧ titledArguments.documentsDir = some "." ∧
    done.result.documents.get? .default = some d ∧
    done.files.at? (FilePath.join "." (Variant.default.fileName .json)) =
      some (.ofText (Format.json.render d.toJson)) ∧
    done.files.at? "r.json" = some (.ofText (resultText titledArguments done.result)) := by
  obtain ⟨done, hrun, hdocuments⟩ := run_titled
  obtain ⟨hdocument, hresult⟩ := outputs_of_run flat_titledFiles.ordered hrun rfl
  obtain ⟨d, hentries⟩ := entries_titledDocuments
  have hd : done.result.documents.get? .default = some d := by
    rw [hdocuments]
    exact KeyMap.mem_entries_iff.1 (hentries ▸ List.mem_cons_self)
  refine ⟨done, d, flat_titledFiles.ordered, hrun, rfl, hd,
    hdocument _ d hd fun w hlater hw => ?_, hresult _ rfl fun v hv => ?_⟩
  · -- no later variant has the file name of the default one
    rw [hdocuments] at hw
    rcases mem_titledDocuments hw with rfl | rfl | rfl
    · exact absurd hlater (OrderedKey.irrefl _)
    · decide +kernel
    · decide +kernel
  · refine locate?_ne_of_name flat_titledFiles.ordered hrun rfl rfl hv ?_
    rw [hdocuments] at hv
    rcases mem_titledDocuments hv with rfl | rfl | rfl <;> decide +kernel

/-- The two documents differ in their text, not only as values. -/
theorem render_titledDocument_ne : Format.json.render (titledDocument "/b" "a.b").toJson ≠
    Format.json.render (titledDocument "/a" "a b").toJson := by
  have hchars : Json.prettyAt 0 (titledDocument "/b" "a.b").toJson ≠
      Json.prettyAt 0 (titledDocument "/a" "a b").toJson := by decide +kernel
  exact fun hsame => hchars (Json.prettyAt_of_pretty hsame)

/-- The document of the first title is not in the file of its name. -/
theorem document_lost : ∃ done v d, run 0 titledFiles titledArguments = .ok done ∧
    titledArguments.documentsDir = some "." ∧ done.result.documents.get? v = some d ∧
    done.files.at? (FilePath.join "." (v.fileName .json)) ≠
      some (.ofText (Format.json.render d.toJson)) := by
  obtain ⟨done, hrun, hdocuments⟩ := run_titled
  obtain ⟨d, hentries⟩ := entries_titledDocuments
  refine ⟨done, ⟨"t", "a b"⟩, titledDocument "/a" "a b", hrun, rfl, ?_, fun hsame => ?_⟩
  · rw [hdocuments]
    exact KeyMap.mem_entries_iff.1 (hentries ▸ List.mem_cons_of_mem _ List.mem_cons_self)
  · rw [fileName_titled.1, at?_titled hrun hdocuments] at hsame
    exact render_titledDocument_ne (FileTree.ofText_inj (Option.some.inj hsame))

end CommandLine

end EndpointDocs
