import EndpointDocs.Proofs.FileSystem.Writing

/-!
# Files side by side

Where the current directory has no directories in it (`FileSystem.Flat`) a path that is a name,
behind parts that change nothing, leads to what has the name, and texts for such paths can always
be written (`FileSystem.Flat.exists_writeAll`).
-/

namespace EndpointDocs

/-! ## Paths

A name alone and a name behind `./` are the paths for files of the current directory that the
program makes itself. Neither needs a directory to be made. -/

namespace FilePath

/-- The path is a name behind parts that change nothing. -/
structure Beside (path name : String) : Prop where
  relative : isAbsolute path = false
  valid : isValid path = true
  parts : ∃ front, parts path = front ++ [name] ∧ ∀ part ∈ front, isIdle part = true
  name : isName name = true
  parent : parent? path = some "" ∨ parent? path = some "."

variable {name : String}

/-- A name is no part that changes nothing. -/
theorem not_isIdle_of_isName (hname : isName name = true) : ¬ isIdle name = true := by
  simp only [isName, Bool.and_eq_true, Bool.not_eq_true'] at hname
  rw [hname.1.1]
  decide

/-- A name alone has no directory in front. -/
theorem beside_name (hname : isName name = true) (hvalid : isValid name = true)
    (hslash : '/' ∉ name.toList) : Beside name name := by
  have hparts : parts name = [name] := by
    rw [FilePath.parts, Text.splitAt_of_not_mem hslash, List.map_singleton, String.ofList_toList]
  have hne : name ≠ "" := fun h => not_isIdle_of_isName hname (h ▸ rfl)
  have hrelative : isAbsolute name = false :=
    beq_eq_false_iff_ne.2 fun h => hslash (List.mem_of_head? h)
  refine ⟨hrelative, hvalid, ⟨[], hparts, by simp⟩, hname, .inl ?_⟩
  unfold parent?
  rw [hparts]
  exact if_neg hne

/-- The current directory in front changes nothing. -/
theorem beside_join (hname : isName name = true) (hvalid : isValid (join "." name) = true)
    (hslash : '/' ∉ name.toList) : Beside (join "." name) name := by
  -- a point is no separator, so one is put between
  have hjoin : (join "." name).toList = ['.'] ++ '/' :: name.toList := by
    unfold join
    rw [if_neg (by decide +kernel), String.toList_append, String.toList_append]
    rfl
  have hparts : parts (join "." name) = [".", name] := by
    rw [FilePath.parts, hjoin, Text.splitAt_append_cons, Text.splitAt_of_not_mem hslash,
      Text.splitAt_of_not_mem (by decide), List.map_append, List.map_singleton, List.map_singleton,
      String.ofList_toList]
    rfl
  refine ⟨?_, hvalid, ⟨["."], hparts, by decide +kernel⟩, hname, .inr ?_⟩
  · rw [isAbsolute, hjoin]
    rfl
  · -- the last part is a name, so nothing is idle at the end
    have habove : dropIdleEnd [".", name] = [".", name] := by
      rw [dropIdleEnd, List.reverse_singleton,
        List.dropWhile_cons_of_neg (not_isIdle_of_isName hname), List.reverse_singleton]
    unfold parent?
    rw [hparts, habove]
    show some (if dropIdleEnd ["."] = [""] then "/" else ofParts (dropIdleEnd ["."])) = some "."
    decide +kernel

end FilePath

namespace FileTree

open FilePath

variable {t : FileTree} {place parts : List String}

/-- Parts that change nothing ask for no directory. -/
theorem makeDirectories_idle (t : FileTree) (place : List String)
    (hidle : ∀ part ∈ parts, isIdle part = true) : t.makeDirectories place parts = (true, t) := by
  induction parts with
  | nil => rw [makeDirectories]
  | cons part rest ih =>
    rw [makeDirectories, if_pos (hidle part List.mem_cons_self)]
    exact ih fun p hp => hidle p (List.mem_cons_of_mem _ hp)

/-- And they lead nowhere else. -/
theorem follow?_idle (hdirectory : (t.get? place).any isDirectory = true)
    (hidle : ∀ part ∈ parts, isIdle part = true) : t.follow? place parts = some place := by
  induction parts with
  | nil => rw [FileTree.follow?]
  | cons part rest ih =>
    rw [FileTree.follow?, hdirectory, if_neg (by decide), if_pos (hidle part List.mem_cons_self)]
    exact ih fun p hp => hidle p (List.mem_cons_of_mem _ hp)

end FileTree

namespace FileSystem

open FilePath

variable {s : FileSystem} {path name : String}

/-! ## The files of the current directory

In such a directory no name is in the way of another one, so a write cannot fail. It is the simplest
state in which a program runs, and the one in which examples are set. -/

/-- The current directory is there, and no directory is in it. -/
structure Flat (s : FileSystem) : Prop where
  ordered : s.tree.Ordered
  here : (s.tree.get? s.here).any FileTree.isDirectory = true
  files : ∀ name u, s.tree.get? (s.here ++ [name]) = some u → u.isFile = true

/-- The current directory is empty, and nothing is beside it. -/
def emptyIn (name : String) : FileSystem := ⟨.directory [(name, .empty)], [name]⟩

/-- There is nothing in the directory. -/
theorem flat_emptyIn (name : String) : (emptyIn name).Flat := by
  have hentry : Entries.find? name [(name, FileTree.empty)] = some .empty := by simp [Entries.find?]
  refine ⟨?_, ?_, fun other u hu => ?_⟩
  · refine FileTree.ordered_directory_iff.2 ⟨List.pairwise_singleton _ _, ?_⟩
    exact List.forall_mem_singleton.2 FileTree.ordered_empty
  · rw [emptyIn, FileTree.get?, hentry]
    rfl
  · rw [emptyIn, FileTree.get?_append, FileTree.get?, hentry] at hu
    cases hu

namespace Flat

/-- Such a path is followed from the current directory. -/
theorem start?_of_beside (h : s.Flat) (hrelative : isAbsolute path = false)
    (hvalid : isValid path = true) : s.start? path = some s.here := by
  have horigin : s.origin path = s.here := by rw [origin, hrelative, if_neg Bool.false_ne_true]
  exact start?_eq_some_iff.2 ⟨horigin, hvalid, h.here⟩

/-- Such a path leads to what has the name. -/
theorem at?_of_beside {u : FileTree} (h : s.Flat) (hpath : Beside path name)
    (hu : s.tree.get? (s.here ++ [name]) = some u) : s.at? path = some u := by
  obtain ⟨front, hparts, hidle⟩ := hpath.parts
  have hplace : s.locate? path = some (s.here ++ [name]) :=
    locate?_eq_concat (h.start?_of_beside hpath.relative hpath.valid) hparts
      (FileTree.follow?_idle h.here hidle) h.here hpath.name (Option.isSome_of_eq_some hu)
  rw [FileSystem.at?, hplace, Option.bind_some, hu]

/-- The other files are what they were. -/
theorem get?_put (h : s.Flat) (name other text : String) :
    (s.put (s.here ++ [name]) text).tree.get? (s.here ++ [other]) =
      if other = name then some (.ofText text) else s.tree.get? (s.here ++ [other]) := by
  obtain ⟨t, ht, hdirectory⟩ := (Option.any_eq_true _ _).1 h.here
  cases t with
  | file content => cases hdirectory
  | directory entries =>
    rw [tree_put]
    exact FileTree.get?_insert_concat _ name other h.ordered ht

/-- A file more makes no directory. -/
theorem put (h : s.Flat) (name text : String) : (s.put (s.here ++ [name]) text).Flat := by
  have hkept := FileTree.Keeps.insert (.ofText text) h.ordered fun u hu => ⟨h.files name u hu, rfl⟩
  refine ⟨h.ordered.insert (FileTree.ordered_file _) _, hkept.isDirectory h.here,
    fun other u hu => ?_⟩
  rw [here_put, h.get?_put] at hu
  split at hu
  · cases hu
    rfl
  · exact h.files other u hu

/-- A text for such a path is put under the name: no directory has to be made, and none is in the
way. -/
theorem write (h : s.Flat) (hpath : Beside path name) (text : String) :
    s.write path text = (.ok (), s.put (s.here ++ [name]) text) := by
  obtain ⟨front, hparts, hidle⟩ := hpath.parts
  have hmade : s.makeDirectory ((parent? path).getD "") = (true, s) := by
    -- the directory in front is the current one, written as nothing or as a point
    rcases hpath.parent with hparent | hparent
    · rw [hparent]
      exact if_pos rfl
    · have hdot : isAbsolute "." = false ∧ isValid "." = true ∧ FilePath.parts "." = ["."] := by
        decide +kernel
      rw [hparent, Option.getD_some, makeDirectory, if_neg (by decide),
        h.start?_of_beside hdot.1 hdot.2.1, hdot.2.2]
      dsimp only
      rw [FileTree.makeDirectories_idle _ _ (by decide)]
  have hplace : s.placeToWrite? path = some (s.here ++ [name]) := by
    have hnofile : (s.tree.get? s.here).any FileTree.isFile = false := by
      obtain ⟨t, ht, hdirectory⟩ := (Option.any_eq_true _ _).1 h.here
      rw [ht]
      exact (Bool.not_eq_true' _).mp hdirectory
    have hnodirectory : (s.tree.get? (s.here ++ [name])).any FileTree.isDirectory = false := by
      refine (Option.any_eq_false _ _).2 fun u hu => ?_
      rw [FileTree.isDirectory, h.files name u hu]
      decide
    unfold placeToWrite?
    rw [h.start?_of_beside hpath.relative hpath.valid, hparts]
    simp [FileTree.follow?_idle h.here hidle, hpath.name, hnofile, hnodirectory]
  unfold FileSystem.write
  dsimp only
  rw [hmade]
  dsimp only
  rw [hplace]

/-- Nothing stops texts from being written side by side. -/
theorem exists_writeAll (h : s.Flat) {texts : List (String × String)}
    (htexts : ∀ x ∈ texts, ∃ name, Beside x.1 name) : ∃ s', s.writeAll texts = (.ok (), s') := by
  induction texts generalizing s with
  | nil => exact ⟨s, rfl⟩
  | cons x rest ih =>
    obtain ⟨name, hpath⟩ := htexts x List.mem_cons_self
    obtain ⟨s', hs'⟩ := ih (h.put name x.2) fun y hy => htexts y (List.mem_cons_of_mem _ hy)
    refine ⟨s', ?_⟩
    rw [writeAll, h.write hpath]
    exact hs'

end Flat

end FileSystem

end EndpointDocs
