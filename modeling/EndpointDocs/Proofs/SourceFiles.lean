import EndpointDocs.Proofs.FileSystem.Writing
import EndpointDocs.Proofs.Text.Cutting
import EndpointDocs.SourceFiles
import Mathlib.Data.List.Forall2
import Mathlib.Data.List.Nodup

/-!
# The files that paths stand for

A path that leads to a file stands for this file, and one that leads to a directory for the source
files below it that no hidden name stands in front of (`Contributes`). Loading reads each of these
files once and loses none: a file is among those that were read or among those that were skipped,
whatever the others hold (`LoadedFrom`). The files of one path come in the order of their paths, and
those of several paths in the order in which these are given.

Main statement: `load_complete`, for trees in which the entries of every directory ascend and have
names without slashes, however paths lead to them. In a file system (`load_at?`) they lead there
from the root or from the current directory.
-/

namespace EndpointDocs

namespace SourceFiles

variable {t : FileTree} {root path : String} {names : List String} {content : ByteArray}

/-! ## The files below a directory

`visible` lists every file of a tree with the names that lead to it, and passes over the entries
with hidden names. What it lists is said by following names (`mem_visible_iff`): in an ordered tree
an entry of a directory is what its name leads to. That no file is listed twice needs the order of
the entries too, as nothing else keeps two of them from having one name. -/

theorem isHidden_eq_false_iff {name : String} :
    isHidden name = false ↔ name.toList.head? ≠ some '.' ∧ name ≠ "target" := by
  simp [isHidden]

/-- The list without the recursion over the entries, so that membership in it is a matter of
`List.mem_flatMap`. -/
theorem visibleEntries_eq_flatMap (entries : List (String × FileTree)) :
    visibleEntries entries = entries.flatMap fun p =>
      if isHidden p.1 then [] else (visible p.2).map fun f => (p.1 :: f.1, f.2) := by
  induction entries with
  | nil => rfl
  | cons p rest ih => rw [visibleEntries, ih, List.flatMap_cons]

/-- The induction is on the names that lead to the file. -/
theorem mem_visible_iff (ht : t.Ordered) :
    (names, content) ∈ visible t ↔
      t.get? names = some (.file content) ∧ ∀ name ∈ names, isHidden name = false := by
  induction names generalizing t with
  | nil =>
    cases t with
    | file bytes =>
      rw [visible, FileTree.get?, List.mem_singleton]
      constructor
      · intro h
        cases h
        exact ⟨rfl, List.forall_mem_nil _⟩
      · rintro ⟨h, -⟩
        cases h
        rfl
    | directory entries =>
      simp only [visible, visibleEntries_eq_flatMap, List.mem_flatMap, FileTree.get?]
      refine iff_of_false ?_ (by simp)
      -- a directory itself is no file: all names below it have one part at least
      rintro ⟨p, -, h⟩
      split at h
      · cases h
      · simp at h
  | cons name rest ih =>
    cases t with
    | file bytes => simp [visible, FileTree.get?]
    | directory entries =>
      simp only [visible, visibleEntries_eq_flatMap, List.mem_flatMap, FileTree.get?,
        Option.bind_eq_some_iff, List.forall_mem_cons]
      constructor
      · rintro ⟨⟨n, u⟩, hu, h⟩
        split at h
        · cases h
        · next hvisible =>
          obtain ⟨⟨ns, bytes⟩, hf, hnames⟩ := List.mem_map.1 h
          cases hnames
          -- the entry is the one that its name leads to, as no other one has this name
          have hfind := Entries.find?_eq_some_of_mem (ht [] entries rfl) hu
          obtain ⟨hplace, hrest⟩ := (ih (ht.entry hfind)).1 hf
          exact ⟨⟨u, hfind, hplace⟩, eq_false_of_ne_true hvisible, hrest⟩
      · rintro ⟨⟨u, hfind, hplace⟩, hvisible, hrest⟩
        refine ⟨(name, u), Entries.mem_of_find?_eq_some hfind, ?_⟩
        rw [hvisible, if_neg Bool.false_ne_true]
        exact List.mem_map.2 ⟨(rest, content), (ih (ht.entry hfind)).2 ⟨hplace, hrest⟩, rfl⟩

mutual

/-- No file is found twice. -/
theorem nodup_visible : (t : FileTree) → t.Ordered → ((visible t).map Prod.fst).Nodup
  | .file _, _ => List.nodup_singleton _
  | .directory entries, h =>
    have hascending := h [] entries rfl
    nodup_visibleEntries entries hascending fun _ hp => h.of_mem hp

theorem nodup_visibleEntries : (entries : List (String × FileTree)) → Ascending entries →
    (∀ p ∈ entries, p.2.Ordered) → ((visibleEntries entries).map Prod.fst).Nodup
  | [], _, _ => List.nodup_nil
  | (name, t) :: rest, hascending, hordered => by
    obtain ⟨hfirst, hascending⟩ := List.pairwise_cons.1 hascending
    obtain ⟨ht, hordered⟩ := List.forall_mem_cons.1 hordered
    have hrest := nodup_visibleEntries rest hascending hordered
    rw [visibleEntries]
    split
    · exact hrest
    · have hnames : ((visible t).map fun f => (name :: f.1, f.2)).map Prod.fst =
          ((visible t).map Prod.fst).map (name :: ·) := by
        simp only [List.map_map]
        rfl
      rw [List.map_append, hnames]
      refine List.nodup_append.2 ⟨(nodup_visible t ht).map (List.cons_injective), hrest, ?_⟩
      -- the names of the rest start with another one
      rintro ns hns ns' hns' rfl
      obtain ⟨ms, -, rfl⟩ := List.mem_map.1 hns
      rw [visibleEntries_eq_flatMap] at hns'
      obtain ⟨f, hf, hname⟩ := List.mem_map.1 hns'
      obtain ⟨p, hp, hf⟩ := List.mem_flatMap.1 hf
      split at hf
      · cases hf
      · obtain ⟨g, -, rfl⟩ := List.mem_map.1 hf
        cases hname
        exact OrderedKey.irrefl _ (hfirst p hp)

end

/-! ## Their order

The walk sorts what it found by the names on the way. The sort is stable and of pairs, so it is only
known that no pair comes after a smaller one; together with the names being distinct they ascend
strictly. -/

/-- The comparison of the sort is the order of lists of names. -/
theorem comesFirst_iff {as bs : List String} : comesFirst as bs = true ↔ ¬bs < as := by
  induction as generalizing bs with
  | nil => simp [comesFirst]
  | cons a as ih =>
    cases bs with
    | nil => simp [comesFirst]
    | cons b bs =>
      have hcons : ¬b :: bs < a :: as ↔ a < b ∨ a = b ∧ ¬bs < as := List.cons_le_cons_iff
      simp [comesFirst, ih, hcons]

/-- Sorting neither adds nor loses a file. -/
theorem below_perm (entries : List (String × FileTree)) :
    (below entries).Perm ((visibleEntries entries).filter fun f => isSource f.1) :=
  List.mergeSort_perm _ _

/-- The names that lead to the files ascend. -/
theorem below_ascending {entries : List (String × FileTree)}
    (h : (FileTree.directory entries).Ordered) :
    (below entries).Pairwise fun f g => f.1 < g.1 := by
  have hsorted : (below entries).Pairwise fun f g => ¬g.1 < f.1 := by
    refine (List.pairwise_mergeSort ?_ ?_ _).imp fun h => comesFirst_iff.1 h
    · intro f g k hfg hgk
      exact comesFirst_iff.2 (List.le_trans (comesFirst_iff.1 hfg) (comesFirst_iff.1 hgk))
    · intro f g
      rw [Bool.or_eq_true, comesFirst_iff, comesFirst_iff]
      exact List.le_total f.1 g.1
  have hnodup : (below entries).Pairwise fun f g => f.1 ≠ g.1 := by
    rw [← List.pairwise_map (f := Prod.fst) (R := (· ≠ ·))]
    refine (((below_perm entries).map Prod.fst).nodup_iff).2 ?_
    exact (nodup_visible _ h).sublist (List.filter_sublist.map Prod.fst)
  refine hsorted.imp₂ (fun f g hle hne => ?_) hnodup
  exact Decidable.byContradiction fun hlt => hne (List.le_antisymm hle hlt)

/-! ## What a path stands for

`Contributes` says which files a path stands for without the walk: by the names that lead to a file,
each of which must be visible and the last of which must have the extension. `mem_candidates_iff` is
the agreement of both. -/

/-- A file that a path stands for, with its own path and its content: what is there itself, or a
source file below it with no hidden name on the way. -/
inductive Contributes (root : String) : FileTree → String → ByteArray → Prop where
  | itself (content : ByteArray) : Contributes root (.file content) root content
  | below {entries : List (String × FileTree)} {names : List String} {content : ByteArray}
      (hplace : (FileTree.directory entries).get? names = some (.file content))
      (hsource : ∃ name ∈ names.getLast?, ∃ stem ≠ [], name.toList = stem ++ ".rs".toList)
      (hvisible : ∀ name ∈ names, name.toList.head? ≠ some '.' ∧ name ≠ "target") :
      Contributes root (.directory entries) (names.foldl FilePath.join root) content

/-- An extension is what stands behind the last point, if there is something in front of it. -/
theorem extensionOfName?_eq_some_iff {name extension : List Char} (h : '.' ∉ extension) :
    FilePath.extensionOfName? name = some extension ↔
      ∃ stem ≠ [], name = stem ++ '.' :: extension := by
  unfold FilePath.extensionOfName?
  dsimp only
  constructor
  · intro hname
    split at hname
    · next point c more hdrop =>
      cases hname
      -- what is in front of the extension ends with the character that ended the scan
      have hpoint : point = '.' := by
        have hhead := List.head?_dropWhile_not (· != '.') name.reverse
        rw [hdrop] at hhead
        exact bne_eq_false_iff_eq.1 hhead
      refine ⟨(c :: more).reverse, by simp, ?_⟩
      calc name
          = (name.reverse.takeWhile (· != '.') ++ name.reverse.dropWhile (· != '.')).reverse := by
            rw [List.takeWhile_append_dropWhile, List.reverse_reverse]
        _ = (c :: more).reverse ++ '.' :: (name.reverse.takeWhile (· != '.')).reverse := by
            rw [hdrop, hpoint]
            simp
    · cases hname
  · rintro ⟨stem, hstem, rfl⟩
    have hreverse : (stem ++ '.' :: extension).reverse =
        extension.reverse ++ '.' :: stem.reverse := by
      simp
    have hextension : ∀ c ∈ extension.reverse, (c != '.') = true := by
      intro c hc
      rw [bne_iff_ne]
      rintro rfl
      exact h (List.mem_reverse.1 hc)
    -- from behind, the extension is everything up to the first point, as it has none in it
    obtain ⟨htake, hdrop⟩ := Text.takeWhile_dropWhile_append (u := '.' :: stem.reverse) hextension
      (by simp)
    rw [hreverse, htake, hdrop, List.reverse_reverse]
    cases hrest : stem.reverse with
    | nil => exact absurd (List.reverse_eq_nil_iff.1 hrest) hstem
    | cons c more => rfl

/-- A name ends in `.rs` behind at least one character; `.rs` alone is a name without an extension.
-/
theorem isSource_iff : isSource names = true ↔
    ∃ name ∈ names.getLast?, ∃ stem ≠ [], name.toList = stem ++ ".rs".toList := by
  unfold isSource
  rw [beq_iff_eq, Option.bind_eq_some_iff]
  refine exists_congr fun name => and_congr_right fun _ => ?_
  exact extensionOfName?_eq_some_iff (by decide)

theorem mem_below_iff {entries : List (String × FileTree)}
    (h : (FileTree.directory entries).Ordered) :
    (names, content) ∈ below entries ↔
      ((FileTree.directory entries).get? names = some (.file content) ∧
        ∀ name ∈ names, name.toList.head? ≠ some '.' ∧ name ≠ "target") ∧
      ∃ name ∈ names.getLast?, ∃ stem ≠ [], name.toList = stem ++ ".rs".toList := by
  rw [(below_perm entries).mem_iff, List.mem_filter, isSource_iff]
  simp only [← isHidden_eq_false_iff]
  exact and_congr_left' (mem_visible_iff h)

/-- A path that leads to a file stands for it whatever its name is; the conditions are about files
below. -/
theorem mem_candidates_iff (ht : t.Ordered) :
    (path, content) ∈ candidates root t ↔ Contributes root t path content := by
  cases t with
  | file bytes =>
    -- a file is a candidate by its own path, whatever its name says
    rw [candidates, List.mem_singleton]
    constructor
    · intro h
      cases h
      exact .itself content
    · intro h
      cases h
      rfl
  | directory entries =>
    rw [candidates, List.mem_map]
    constructor
    · -- below a directory the walk has dropped what is hidden, and the filter what is no source
      rintro ⟨⟨names, bytes⟩, hf, h⟩
      cases h
      obtain ⟨⟨hplace, hvisible⟩, hsource⟩ := (mem_below_iff ht).1 hf
      exact .below hplace hsource hvisible
    · intro h
      cases h with
      | @below _ names _ hplace hsource hvisible =>
        exact ⟨(names, content), (mem_below_iff ht).2 ⟨⟨hplace, hvisible⟩, hsource⟩, rfl⟩

/-- The paths of the files that a path stands for ascend, part by part. -/
theorem candidates_ascending (ht : t.Ordered) (hnamed : t.Named) (root : String) :
    (candidates root t).Pairwise fun f g => FilePath.parts f.1 < FilePath.parts g.1 := by
  cases t with
  | file bytes => exact List.pairwise_singleton _ _
  | directory entries =>
    -- all of these paths start with the parts of the root, and go on with their own names
    have hparts : ∀ f ∈ below entries, FilePath.parts (f.1.foldl FilePath.join root) =
        FilePath.partsBelow root ++ f.1 := by
      rintro ⟨names, content⟩ hf
      obtain ⟨⟨hplace, -⟩, name, hname, -⟩ := (mem_below_iff ht).1 hf
      refine FilePath.parts_foldl_join root ?_ (hnamed names _ hplace)
      rintro rfl
      cases hname
    refine List.pairwise_map.2 ((below_ascending ht).imp_of_mem fun {f g} hf hg hlt => ?_)
    rw [hparts f hf, hparts g hg]
    exact List.append_left_lt hlt

/-! ## Reading

A candidate is read as text and the text as declarations. Whatever fails, the file is kept with its
path among the skipped ones, so that each candidate is found again in one of the two lists. -/

theorem readFile_eq_ok_iff {file : SourceFile} :
    readFile path content = .ok file ↔ file.path = path ∧
      ∃ text, String.fromUTF8? content = some text ∧ Source.items? text = some file.items := by
  unfold readFile
  cases String.fromUTF8? content with
  | none => simp
  | some text =>
    cases hitems : Source.items? text with
    | none => simp [hitems]
    | some items =>
      obtain ⟨p, is⟩ := file
      simp [hitems, eq_comm]

theorem readFile_eq_error_iff {skipped : SkippedFile} :
    readFile path content = .error skipped ↔
      (skipped = .unreadable path ∧ String.fromUTF8? content = none) ∨
      (skipped = .unparsable path ∧
        ∃ text, String.fromUTF8? content = some text ∧ Source.items? text = none) := by
  unfold readFile
  cases String.fromUTF8? content with
  | none => simp [eq_comm]
  | some text =>
    cases hitems : Source.items? text with
    | none => simp [hitems, eq_comm]
    | some items => simp [hitems]

theorem path_of_readFile_ok {file : SourceFile} (h : readFile path content = .ok file) :
    file.path = path := (readFile_eq_ok_iff.1 h).1

theorem path_of_readFile_error {skipped : SkippedFile}
    (h : readFile path content = .error skipped) : skipped.path = path := by
  rcases readFile_eq_error_iff.1 h with ⟨rfl, -⟩ | ⟨rfl, -⟩
  · rfl
  · rfl

section ofCandidates

variable {cs : List (String × ByteArray)}

theorem mem_files_ofCandidates {file : SourceFile} :
    file ∈ (ofCandidates cs).files ↔ ∃ c ∈ cs, readFile c.1 c.2 = .ok file := by
  induction cs with
  | nil => simp [ofCandidates]
  | cons c rest ih =>
    rw [ofCandidates]
    cases hread : readFile c.1 c.2 with
    | ok first => simp [hread, ih, eq_comm]
    | error skipped => simp [hread, ih]

theorem mem_skipped_ofCandidates {skipped : SkippedFile} :
    skipped ∈ (ofCandidates cs).skipped ↔ ∃ c ∈ cs, readFile c.1 c.2 = .error skipped := by
  induction cs with
  | nil => simp [ofCandidates]
  | cons c rest ih =>
    rw [ofCandidates]
    cases hread : readFile c.1 c.2 with
    | ok first => simp [hread, ih]
    | error skipped => simp [hread, ih, eq_comm]

/-- Each file is read or skipped, and no file takes the place of another one. -/
theorem paths_ofCandidates (cs : List (String × ByteArray)) :
    ((ofCandidates cs).files.map SourceFile.path ++
      (ofCandidates cs).skipped.map SkippedFile.path).Perm (cs.map Prod.fst) := by
  induction cs with
  | nil => exact .nil
  | cons c rest ih =>
    rw [ofCandidates, List.map_cons]
    split
    · next file hread =>
      rw [List.map_cons, path_of_readFile_ok hread]
      exact ih.cons c.1
    · next skipped hread =>
      rw [List.map_cons, path_of_readFile_error hread]
      exact List.perm_middle.trans (ih.cons c.1)

theorem files_ofCandidates_sublist (cs : List (String × ByteArray)) :
    ((ofCandidates cs).files.map SourceFile.path).Sublist (cs.map Prod.fst) := by
  induction cs with
  | nil => exact .slnil
  | cons c rest ih =>
    rw [ofCandidates, List.map_cons]
    split
    · next file hread =>
      rw [List.map_cons, path_of_readFile_ok hread]
      exact ih.cons_cons c.1
    · exact ih.cons c.1

end ofCandidates

/-! ## Loading

Now the lists of candidates and of what was read of them are put together. `LoadedFrom` is about one
path. A list of paths is loaded one path after the other, and the first one that leads to nothing
ends it. -/

/-- What is loaded for a path: the files that it stands for, each of them once, as a file that was
read or as one that was skipped. -/
structure LoadedFrom (root : String) (t : FileTree) (s : SourceFiles) : Prop where
  /-- The files that hold a text of declarations. -/
  files : ∀ file, file ∈ s.files ↔ ∃ content text, Contributes root t file.path content ∧
    String.fromUTF8? content = some text ∧ Source.items? text = some file.items
  /-- The files that hold no text. -/
  unreadable : ∀ path, .unreadable path ∈ s.skipped ↔
    ∃ content, Contributes root t path content ∧ String.fromUTF8? content = none
  /-- The files that hold another text. -/
  unparsable : ∀ path, .unparsable path ∈ s.skipped ↔
    ∃ content text, Contributes root t path content ∧ String.fromUTF8? content = some text ∧
      Source.items? text = none
  once : (s.files.map SourceFile.path ++ s.skipped.map SkippedFile.path).Nodup
  ascending : s.files.Pairwise fun f g => FilePath.parts f.path < FilePath.parts g.path

theorem loadedFrom_candidates (ht : t.Ordered) (hnamed : t.Named) (root : String) :
    LoadedFrom root t (ofCandidates (candidates root t)) where
  files file := by
    -- a readable file is a candidate whose bytes are UTF-8 text that parses, in either direction
    simp only [mem_files_ofCandidates, Prod.exists, mem_candidates_iff ht, readFile_eq_ok_iff]
    constructor
    · rintro ⟨path, content, hcontributes, rfl, text, htext⟩
      exact ⟨content, text, hcontributes, htext⟩
    · rintro ⟨content, text, hcontributes, htext⟩
      exact ⟨file.path, content, hcontributes, rfl, text, htext⟩
  unreadable path := by
    simp [mem_skipped_ofCandidates, mem_candidates_iff ht, readFile_eq_error_iff]
  unparsable path := by
    simp [mem_skipped_ofCandidates, mem_candidates_iff ht, readFile_eq_error_iff]
  once := by
    -- paths that ascend strictly are not repeated
    rw [(paths_ofCandidates _).nodup_iff, List.Nodup, List.pairwise_map]
    refine (candidates_ascending ht hnamed root).imp fun {f g} hlt heq => ?_
    rw [heq] at hlt
    exact List.lt_irrefl _ hlt
  ascending := by
    -- what is read is a sublist of the candidates, so their order is kept
    have hpaths : ((candidates root t).map Prod.fst).Pairwise fun p q =>
        FilePath.parts p < FilePath.parts q :=
      List.pairwise_map.2 (candidates_ascending ht hnamed root)
    have hread := hpaths.sublist (files_ofCandidates_sublist _)
    rwa [List.pairwise_map] at hread

/-- Loading fails with the first path that leads to nothing. -/
theorem load_eq_error_iff {look : String → Option FileTree} {roots : List String}
    {missing : MissingPath} :
    load look roots = .error missing ↔
      roots.find? (fun root => (look root).isNone) = some missing.path := by
  induction roots with
  | nil => simp [load]
  | cons root rest ih =>
    rw [load]
    cases hlook : look root with
    | none => obtain ⟨path⟩ := missing; simp [hlook]
    | some t =>
      simp only [List.find?_cons, hlook, Option.isNone_some, ← ih]
      cases load look rest with
      | error e => simp [Except.map]
      | ok s => simp [Except.map]

/-- What is loaded for several paths is loaded for one after the other. -/
theorem exists_parts_of_load {look : String → Option FileTree} {roots : List String}
    {s : SourceFiles} (h : load look roots = .ok s) :
    ∃ parts, List.Forall₂ (fun root part => ∃ t, look root = some t ∧
        part = ofCandidates (candidates root t)) roots parts ∧
      s.files = parts.flatMap SourceFiles.files ∧
      s.skipped = parts.flatMap SourceFiles.skipped := by
  induction roots generalizing s with
  | nil =>
    cases h
    exact ⟨[], .nil, rfl, rfl⟩
  | cons root rest ih =>
    rw [load] at h
    cases hlook : look root with
    | none =>
      rw [hlook] at h
      cases h
    | some t =>
      rw [hlook] at h
      cases hrest : load look rest with
      | error e =>
        rw [hrest] at h
        cases h
      | ok others =>
        rw [hrest] at h
        cases h
        -- the part of the first path stands in front of the others
        obtain ⟨parts, hparts, hfiles, hskipped⟩ := ih hrest
        refine ⟨ofCandidates (candidates root t) :: parts, .cons ⟨t, hlook, rfl⟩ hparts, ?_, ?_⟩
        · rw [append, hfiles, List.flatMap_cons]
        · rw [append, hskipped, List.flatMap_cons]

section Complete

variable {look : String → Option FileTree} {roots : List String}

/-- No path leads to nothing unless loading fails, and the other way round. -/
theorem load_fails_iff :
    (∃ missing, load look roots = .error missing) ↔ ∃ root ∈ roots, look root = none := by
  simp only [load_eq_error_iff]
  constructor
  · rintro ⟨missing, hmissing⟩
    have hnone : (look missing.path).isNone = true := by simpa using List.find?_some hmissing
    exact ⟨missing.path, List.mem_of_find?_eq_some hmissing, Option.isNone_iff_eq_none.1 hnone⟩
  · rintro ⟨root, hroot, hnone⟩
    have hfound : (roots.find? fun root => (look root).isNone).isSome = true :=
      List.find?_isSome.2 ⟨root, hroot, Option.isNone_iff_eq_none.2 hnone⟩
    obtain ⟨first, hfirst⟩ := Option.isSome_iff_exists.1 hfound
    exact ⟨⟨first⟩, hfirst⟩

/-- Each part is the part of its own path, at the same position. -/
theorem loadedFrom_of_load
    (hlook : ∀ root ∈ roots, ∀ t, look root = some t → t.Ordered ∧ t.Named) {s : SourceFiles}
    (h : load look roots = .ok s) :
    ∃ parts, List.Forall₂ (fun root part => ∃ t, look root = some t ∧ LoadedFrom root t part)
        roots parts ∧
      s.files = parts.flatMap SourceFiles.files ∧
      s.skipped = parts.flatMap SourceFiles.skipped := by
  obtain ⟨parts, hparts, hfiles⟩ := exists_parts_of_load h
  refine ⟨parts, ?_, hfiles⟩
  refine List.forall₂_iff_get.2 ⟨hparts.length_eq, fun i hi hi' => ?_⟩
  obtain ⟨t, ht, hpart⟩ := hparts.get hi hi'
  obtain ⟨hordered, hnamed⟩ := hlook _ (List.get_mem roots ⟨i, hi⟩) t ht
  exact ⟨t, ht, hpart ▸ loadedFrom_candidates hordered hnamed _⟩

/-- Loading fails exactly if one of the paths leads to nothing. Otherwise each path adds, in the
order in which they are given, all of the files that it stands for, once and in ascending order.
Nothing is asked of the way in which paths lead to trees. -/
theorem load_complete
    (hlook : ∀ root ∈ roots, ∀ t, look root = some t → t.Ordered ∧ t.Named) :
    ((∃ missing, load look roots = .error missing) ↔ ∃ root ∈ roots, look root = none) ∧
    ∀ s, load look roots = .ok s →
      ∃ parts, List.Forall₂ (fun root part => ∃ t, look root = some t ∧ LoadedFrom root t part)
          roots parts ∧
        s.files = parts.flatMap SourceFiles.files ∧
        s.skipped = parts.flatMap SourceFiles.skipped :=
  ⟨load_fails_iff, fun _ => loadedFrom_of_load hlook⟩

/-- The files of a file system, in which paths lead from the root or from the current directory. -/
theorem load_at? {files : FileSystem} (h : files.tree.Ordered) (hnamed : files.tree.Named)
    (roots : List String) :
    ((∃ missing, load files.at? roots = .error missing) ↔ ∃ root ∈ roots, files.at? root = none) ∧
    ∀ s, load files.at? roots = .ok s →
      ∃ parts, List.Forall₂ (fun root part => ∃ t, files.at? root = some t ∧
          LoadedFrom root t part) roots parts ∧
        s.files = parts.flatMap SourceFiles.files ∧
        s.skipped = parts.flatMap SourceFiles.skipped :=
  ⟨load_fails_iff, fun _ => loadedFrom_of_load fun _ _ _ ht =>
    ⟨FileSystem.ordered_of_at? h ht, FileSystem.named_of_at? hnamed ht⟩⟩

end Complete

/-- A directory with a broken file, a file that holds no text, and hidden names. -/
def crate : FileTree :=
  .directory [
    (".git", .directory [("hook.rs", .ofText "")]),
    ("bad.rs", .ofText "\x7d"),
    ("lib.rs", .ofText ""),
    ("target", .directory [("out.rs", .ofText "")]),
    ("types", .directory [("raw.rs", .file ⟨#[0xFF]⟩)])]

/-- The directory below the root, beside the current directory, in which there is a file of another
kind. -/
def crateWithNotes : FileSystem where
  tree := .directory [("crate", crate), ("work", .directory [("notes.txt", .ofText "")])]
  here := ["work"]

theorem ordered_crateWithNotes : crateWithNotes.tree.Ordered := by
  simp only [crateWithNotes, crate, FileTree.ofText, FileTree.ordered_directory_iff,
    List.forall_mem_cons, FileTree.ordered_file, List.not_mem_nil, false_imp_iff, implies_true,
    true_and, and_true]
  decide

theorem named_crateWithNotes : crateWithNotes.tree.Named := by
  have hcrate : crate.Named := by
    simp [crate, FileTree.ofText, FileTree.named_directory, FileTree.named_file]
  refine FileTree.named_directory ?_
  simp [hcrate, FileTree.ofText, FileTree.named_directory, FileTree.named_file]

/-- A closing bracket alone is no text of declarations. -/
theorem items?_bracket : Source.items? "\x7d" = none := by
  have htext :
      Source.withoutInterpreter (Source.Lexer.withoutMark "\x7d".toList) = "\x7d".toList := rfl
  have htokens : Source.tokens? "\x7d".toList = none := by decide +kernel
  unfold Source.items?
  dsimp only
  rw [htext, htokens, Option.bind_none]

theorem load_crateWithNotes :
    (∀ root ∈ ["/crate", "notes.txt"], ∀ t, crateWithNotes.at? root = some t →
      t.Ordered ∧ t.Named) ∧
    ∃ s ofCrate ofNotes, load crateWithNotes.at? ["/crate", "notes.txt"] = .ok s ∧
      s.files = ofCrate.files ++ ofNotes.files ∧ s.skipped = ofCrate.skipped ++ ofNotes.skipped ∧
      LoadedFrom "/crate" crate ofCrate ∧ LoadedFrom "notes.txt" (.ofText "") ofNotes ∧
      ⟨"/crate/lib.rs", []⟩ ∈ ofCrate.files ∧ .unparsable "/crate/bad.rs" ∈ ofCrate.skipped ∧
      .unreadable "/crate/types/raw.rs" ∈ ofCrate.skipped ∧ ⟨"notes.txt", []⟩ ∈ ofNotes.files := by
  have hcrate : crateWithNotes.at? "/crate" = some crate := by rfl
  have hnotes : crateWithNotes.at? "notes.txt" = some (.ofText "") := by rfl
  have hlook : ∀ root ∈ ["/crate", "notes.txt"], ∀ t, crateWithNotes.at? root = some t →
      t.Ordered ∧ t.Named := fun _ _ _ ht =>
    ⟨FileSystem.ordered_of_at? ordered_crateWithNotes ht,
      FileSystem.named_of_at? named_crateWithNotes ht⟩
  obtain ⟨hfails, hparts⟩ := load_complete hlook
  cases hload : load crateWithNotes.at? ["/crate", "notes.txt"] with
  | error missing =>
    -- loading does not fail, since both paths lead somewhere
    obtain ⟨root, hroot, hnone⟩ := hfails.1 ⟨missing, hload⟩
    simp only [List.mem_cons, List.not_mem_nil, or_false] at hroot
    rcases hroot with rfl | rfl
    · cases hcrate.symm.trans hnone
    · cases hnotes.symm.trans hnone
  | ok s =>
    obtain ⟨parts, hroots, hfiles, hskipped⟩ := hparts s hload
    obtain ⟨ofCrate, rest, ⟨t, ht, hofCrate⟩, hrest, rfl⟩ := List.forall₂_cons_left_iff.1 hroots
    obtain ⟨ofNotes, none, ⟨u, hu, hofNotes⟩, hnone, rfl⟩ := List.forall₂_cons_left_iff.1 hrest
    cases List.forall₂_nil_left_iff.1 hnone
    cases hcrate.symm.trans ht
    cases hnotes.symm.trans hu
    -- the files that the two paths stand for, one for each of the three ways in which reading goes
    have hempty : String.fromUTF8? "".toUTF8 = some "" := FileTree.text?_ofText ""
    have hbracket : String.fromUTF8? "\x7d".toUTF8 = some "\x7d" := FileTree.text?_ofText "\x7d"
    have hlib : Contributes "/crate" crate (["lib.rs"].foldl FilePath.join "/crate") "".toUTF8 :=
      .below rfl ⟨"lib.rs", rfl, "lib".toList, by decide, by decide⟩ (by decide)
    have hbad : Contributes "/crate" crate (["bad.rs"].foldl FilePath.join "/crate")
        "\x7d".toUTF8 :=
      .below rfl ⟨"bad.rs", rfl, "bad".toList, by decide, by decide⟩ (by decide)
    have hraw : Contributes "/crate" crate (["types", "raw.rs"].foldl FilePath.join "/crate")
        ⟨#[0xFF]⟩ := .below rfl ⟨"raw.rs", rfl, "raw".toList, by decide, by decide⟩ (by decide)
    refine ⟨hlook, s, ofCrate, ofNotes, rfl, ?_, ?_,
      hofCrate, hofNotes, ?_, ?_, ?_, ?_⟩
    · simpa using hfiles
    · simpa using hskipped
    · exact (hofCrate.files ⟨"/crate/lib.rs", []⟩).2 ⟨_, "", hlib, hempty, rfl⟩
    · exact (hofCrate.unparsable "/crate/bad.rs").2 ⟨_, "\x7d", hbad, hbracket, items?_bracket⟩
    · exact (hofCrate.unreadable "/crate/types/raw.rs").2 ⟨_, hraw, by decide +kernel⟩
    · exact (hofNotes.files ⟨"notes.txt", []⟩).2 ⟨_, "", .itself _, hempty, rfl⟩

end SourceFiles

end EndpointDocs
