import EndpointDocs.FileSystem
import EndpointDocs.Proofs.FileTree

/-!
# What writing files changes

Writing a text to a path makes directories where nothing was and puts the text at the place of the
path; all else is kept, and the current directory is the same one. So paths lead afterwards where
they led before, and of several texts that are written in a row each is there at the end, unless a
later one goes to the same place (`FileSystem.at?_of_writeAll`).
-/

namespace EndpointDocs

open FileTree (Keeps)

namespace FileSystem

variable {s s' : FileSystem} {place : List String} {path text name : String}
variable {written : List String → Prop}

/-! ## Paths that lead where they led

A path is followed from the root or from the current directory, through the tree. Where the current
directory has the same place and the tree is kept, it leads to the same place. -/

/-- The place that a path starts from, which must be a directory. -/
theorem start?_eq_some_iff : s.start? path = some place ↔
    s.origin path = place ∧ FilePath.isValid path = true ∧
      (s.tree.get? place).any FileTree.isDirectory = true := by
  unfold start?
  split
  · next h =>
    rw [Bool.and_eq_true] at h
    rw [Option.some.injEq]
    exact ⟨fun hplace => ⟨hplace, h.1, hplace ▸ h.2⟩, And.left⟩
  · next h =>
    refine iff_of_false (fun hplace => nomatch hplace) ?_
    rintro ⟨rfl, hvalid, hdirectory⟩
    exact h (Bool.and_eq_true_iff.2 ⟨hvalid, hdirectory⟩)

/-- Where a path starts depends on the current directory alone. -/
theorem origin_of_here (hhere : s'.here = s.here) (path : String) :
    s'.origin path = s.origin path := by
  rw [origin, origin, hhere]

/-- A directory stays one. -/
theorem start?_of_keeps (hhere : s'.here = s.here) (h : Keeps written s.tree s'.tree)
    (hstart : s.start? path = some place) : s'.start? path = some place := by
  obtain ⟨horigin, hvalid, hdirectory⟩ := start?_eq_some_iff.1 hstart
  exact start?_eq_some_iff.2
    ⟨(origin_of_here hhere path).trans horigin, hvalid, h.isDirectory hdirectory⟩

/-- A path leads afterwards where it led before. -/
theorem locate?_of_keeps (hhere : s'.here = s.here) (h : Keeps written s.tree s'.tree)
    (hplace : s.locate? path = some place) : s'.locate? path = some place := by
  unfold locate? at hplace ⊢
  split at hplace
  · cases hplace
  · next hpath =>
    obtain ⟨start, hstart, hfollow⟩ := Option.bind_eq_some_iff.1 hplace
    rw [if_neg hpath, start?_of_keeps hhere h hstart]
    exact h.follow? hfollow

/-- A path ends in a name, behind parts that lead to a directory in which the name is. -/
theorem locate?_eq_concat {start front above : List String} (hstart : s.start? path = some start)
    (hparts : FilePath.parts path = front ++ [name])
    (hfollow : s.tree.follow? start front = some above)
    (habove : (s.tree.get? above).any FileTree.isDirectory = true)
    (hname : FilePath.isName name = true)
    (hsome : (s.tree.get? (above ++ [name])).isSome = true) :
    s.locate? path = some (above ++ [name]) := by
  have hpath : path ≠ "" := by
    rintro rfl
    cases (List.append_inj' (hparts.symm.trans rfl : front ++ [name] = [] ++ [""]) rfl).2
    cases hname
  unfold locate?
  rw [if_neg hpath, hstart, Option.bind_some, hparts, FileTree.follow?_append, hfollow]
  exact FileTree.follow?_name habove hname hsome

/-- What is at a path of an ordered tree is ordered. -/
theorem ordered_of_at? {t : FileTree} (h : s.tree.Ordered) (ht : s.at? path = some t) :
    t.Ordered := by
  obtain ⟨place, -, hplace⟩ := Option.bind_eq_some_iff.1 ht
  exact h.get? hplace

/-- What is at a path of a tree with names has names. -/
theorem named_of_at? {t : FileTree} (h : s.tree.Named) (ht : s.at? path = some t) : t.Named := by
  obtain ⟨place, -, hplace⟩ := Option.bind_eq_some_iff.1 ht
  exact h.get? hplace

@[simp]
theorem tree_put (s : FileSystem) (place : List String) (text : String) :
    (s.put place text).tree = .insert (.ofText text) s.tree place := rfl

@[simp]
theorem here_put (s : FileSystem) (place : List String) (text : String) :
    (s.put place text).here = s.here := rfl

/-! ## One text

A text goes to a name in a directory that is there, or has been made (`of_placeToWrite?`). What is
known of the files after it is collected in `Written`. -/

/-- Making directories does not move the current one. -/
theorem here_makeDirectory (s : FileSystem) (path : String) :
    (s.makeDirectory path).2.here = s.here := by
  unfold makeDirectory
  split
  · rfl
  · split <;> rfl

/-- No file is changed, and names that are there stay. -/
theorem keeps_makeDirectory (hs : s.tree.Ordered) (path : String) :
    (s.makeDirectory path).2.tree.Ordered ∧
      Keeps (fun _ => False) s.tree (s.makeDirectory path).2.tree := by
  unfold makeDirectory
  split
  · exact ⟨hs, .refl _⟩
  · split
    · exact ⟨hs, .refl _⟩
    · exact FileTree.keeps_makeDirectories hs _ (FilePath.parts path)

/-- A path that can be written to ends in a name, behind parts that lead to a directory. -/
theorem of_placeToWrite? (h : s.placeToWrite? path = some place) :
    ∃ start front above name entries, s.start? path = some start ∧
      FilePath.parts path = front ++ [name] ∧ place = above ++ [name] ∧
      FilePath.isName name = true ∧ s.tree.follow? start front = some above ∧
      s.tree.get? above = some (.directory entries) ∧
      ∀ u, s.tree.get? place = some u → u.isFile = true := by
  unfold placeToWrite? at h
  obtain ⟨start, hstart, h⟩ := Option.bind_eq_some_iff.1 h
  obtain ⟨name, hlast, h⟩ := Option.bind_eq_some_iff.1 h
  obtain ⟨front, hparts⟩ := List.getLast?_eq_some_iff.1 hlast
  rw [hparts, List.dropLast_concat] at h
  split at h
  · cases h
  · next hname =>
    obtain ⟨above, habove, h⟩ := Option.bind_eq_some_iff.1 h
    split at h
    · cases h
    · next hfree =>
      cases h
      rw [Bool.not_eq_true, Bool.or_eq_false_iff] at hfree
      have hname := (Bool.not_eq_false' _).mp (eq_false_of_ne_true hname)
      -- the parts in front lead somewhere, and a file is ruled out there
      have hdirectory := (start?_eq_some_iff.1 hstart).2.2
      have hthere : (s.tree.get? start).isSome = true := by
        obtain ⟨u, hu, -⟩ := (Option.any_eq_true _ _).1 hdirectory
        exact Option.isSome_of_eq_some hu
      obtain ⟨u, hu⟩ := Option.isSome_iff_exists.1 (FileTree.isSome_of_follow? hthere habove)
      cases u with
      | file content => cases (Option.any_eq_false _ _).1 hfree.1 _ hu
      | directory entries =>
        refine ⟨start, front, above, name, entries, hstart, hparts, rfl, hname, habove, hu,
          fun u hu => ?_⟩
        have hfile := (Option.any_eq_false _ _).1 hfree.2 u hu
        exact (Bool.not_eq_false' _).mp hfile

/-- What has been written to a path: the text is at its place, and the rest is kept. -/
structure Written (s : FileSystem) (path text : String) (place : List String) (s' : FileSystem) :
    Prop where
  ordered : s'.tree.Ordered
  here : s'.here = s.here
  located : s'.locate? path = some place
  name : place.getLast? = (FilePath.parts path).getLast?
  text : s'.tree.get? place = some (.ofText text)
  keeps : Keeps (· = place) s.tree s'.tree

/-- A write that succeeds has made the directory in front and put the text there. -/
theorem written_of_write (hs : s.tree.Ordered) (h : s.write path text = (.ok (), s')) :
    ∃ place, Written s path text place s' := by
  obtain ⟨hordered, hkept⟩ := keeps_makeDirectory hs ((FilePath.parent? path).getD "")
  have hhere := here_makeDirectory s ((FilePath.parent? path).getD "")
  unfold write at h
  dsimp only at h
  generalize s.makeDirectory ((FilePath.parent? path).getD "") = made at h hordered hkept hhere
  obtain ⟨ok, q⟩ := made
  cases ok with
  | false => cases h
  | true =>
    dsimp only at h hordered hkept hhere
    cases hplace : q.placeToWrite? path with
    | none =>
      rw [hplace] at h
      cases h
    | some place =>
      rw [hplace] at h
      cases h
      obtain ⟨start, front, above, name, entries, hstart, hparts, rfl, hname, hfollow, habove,
        hfile⟩ := of_placeToWrite? hplace
      have hnew := Keeps.insert (.ofText text) hordered fun u hu => ⟨hfile u hu, rfl⟩
      have htext := FileTree.get?_insert_concat (.ofText text) name name hordered habove
      rw [if_pos rfl] at htext
      refine ⟨above ++ [name], ?_, hhere, ?_, ?_, htext, (hkept.trans hnew).weaken fun _ h => ?_⟩
      · exact hordered.insert (FileTree.ordered_file _) _
      · -- the directory is found as before, and the name is there now
        have hdirectory : (q.tree.get? above).any FileTree.isDirectory = true := by
          rw [habove]
          rfl
        exact locate?_eq_concat (start?_of_keeps (here_put q _ text) hnew hstart) hparts
          (hnew.follow? hfollow) (hnew.isDirectory hdirectory) hname
          (Option.isSome_of_eq_some htext)
      · rw [hparts, List.getLast?_concat, List.getLast?_concat]
      · exact h.resolve_left id

/-! ## Several texts

The places of the paths at the end are those at which they were written, since each write keeps
what the ones before it have made. -/

variable {texts before after : List (String × String)}

/-- The first write, and then the others. -/
theorem writeAll_cons (h : s.writeAll ((path, text) :: texts) = (.ok (), s')) :
    ∃ q, s.write path text = (.ok (), q) ∧ q.writeAll texts = (.ok (), s') := by
  rw [writeAll] at h
  split at h
  · next q hq => exact ⟨q, hq, h⟩
  · cases h

/-- The writes in front, and then those behind. -/
theorem writeAll_append (h : s.writeAll (before ++ after) = (.ok (), s')) :
    ∃ q, s.writeAll before = (.ok (), q) ∧ q.writeAll after = (.ok (), s') := by
  induction before generalizing s with
  | nil => exact ⟨s, rfl, h⟩
  | cons x rest ih =>
    obtain ⟨q, hx, hrest⟩ := writeAll_cons h
    obtain ⟨q', hbefore, hafter⟩ := ih hrest
    refine ⟨q', ?_, hafter⟩
    rw [writeAll, hx]
    exact hbefore

/-- The file is one of those that the paths lead to at the end. -/
def LedTo (s : FileSystem) (texts : List (String × String)) (place : List String) : Prop :=
  ∃ x ∈ texts, s.locate? x.1 = some place

/-- What is known after texts have been written: no other files change, and each path leads to a
place of its own name. -/
structure WrittenAll (s : FileSystem) (texts : List (String × String)) (s' : FileSystem) :
    Prop where
  ordered : s'.tree.Ordered
  here : s'.here = s.here
  keeps : Keeps (s'.LedTo texts) s.tree s'.tree
  places : ∀ x ∈ texts, ∃ place, s'.locate? x.1 = some place ∧
    place.getLast? = (FilePath.parts x.1).getLast?

/-- The induction is on the texts. -/
theorem writtenAll_of_writeAll (hs : s.tree.Ordered) (h : s.writeAll texts = (.ok (), s')) :
    WrittenAll s texts s' := by
  induction texts generalizing s with
  | nil =>
    cases h
    exact ⟨hs, rfl, .refl _, fun x hx => nomatch hx⟩
  | cons x rest ih =>
    obtain ⟨q, hx, hrest⟩ := writeAll_cons h
    obtain ⟨place, hwritten⟩ := written_of_write hs hx
    obtain ⟨hordered, hhere, hkept, hplaces⟩ := ih hwritten.ordered hrest
    -- a file that is there is found there also after the later writes
    have hlocated := locate?_of_keeps hhere hkept hwritten.located
    refine ⟨hordered, hhere.trans hwritten.here,
      (hwritten.keeps.trans hkept).weaken fun other hother => ?_, fun y hy => ?_⟩
    · rcases hother with rfl | ⟨y, hy, hother⟩
      · exact ⟨x, List.mem_cons_self, hlocated⟩
      · exact ⟨y, List.mem_cons_of_mem _ hy, hother⟩
    · rcases List.mem_cons.1 hy with rfl | hy
      · exact ⟨place, hlocated, hwritten.name⟩
      · exact hplaces y hy

/-- A text is there at the end unless a later one went to the same place. -/
theorem at?_of_writeAll (hs : s.tree.Ordered)
    (h : s.writeAll (before ++ (path, text) :: after) = (.ok (), s'))
    (hafter : ∀ x ∈ after, s'.locate? x.1 ≠ s'.locate? path) :
    s'.at? path = some (.ofText text) := by
  obtain ⟨q, hbefore, hrest⟩ := writeAll_append h
  obtain ⟨q', hwrite, hrest⟩ := writeAll_cons hrest
  obtain ⟨place, hwritten⟩ := written_of_write (writtenAll_of_writeAll hs hbefore).ordered hwrite
  obtain ⟨-, hhere, hkept, -⟩ := writtenAll_of_writeAll hwritten.ordered hrest
  have hlocated := locate?_of_keeps hhere hkept hwritten.located
  -- the later writes keep the text, as none of their paths leads to its place
  obtain ⟨u, hu, -, hsame⟩ := hkept place _ hwritten.text
  rw [at?, hlocated, Option.bind_some, hu, hsame rfl]
  rintro ⟨x, hx, hplace⟩
  exact hafter x hx (hplace.trans hlocated.symm)

end FileSystem

end EndpointDocs
