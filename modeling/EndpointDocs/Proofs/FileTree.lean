import EndpointDocs.FileTree
import EndpointDocs.Proofs.KeyMap

/-!
# Laws of file trees

In a tree in which the entries of every directory ascend (`Ordered`) a new file stands where it was
put, and all else is as it was: directories stay directories, and files keep their content unless
they are written to (`Keeps`). So parts that lead to a place before lead there afterwards
(`Keeps.follow?`), also when directories are made on the way (`keeps_makeDirectories`).
-/

namespace EndpointDocs.FileTree

variable {t t' t'' new u : FileTree} {place parts more : List String} {name : String}

/-! ## Ordered trees

Entries are found by their names, so that a name stands for one entry only if it occurs once. That
the entries of every directory ascend gives this, and it is what a tree hands down to its parts. -/

/-- The entries of every directory ascend. -/
def Ordered (t : FileTree) : Prop :=
  ∀ place entries, t.get? place = some (.directory entries) → Ascending entries

theorem ordered_file (content : ByteArray) : (file content).Ordered := by
  intro place entries h
  cases place with
  | nil => cases h
  | cons name rest => cases h

theorem ordered_empty : empty.Ordered := by
  intro place entries h
  cases place with
  | nil =>
    cases h
    exact .nil
  | cons name rest => cases h

/-- What is at a place of an ordered tree is ordered: its own places are places of the tree. -/
theorem Ordered.get? (h : t.Ordered) (hu : t.get? place = some u) : u.Ordered := by
  intro more entries hentries
  refine h (place ++ more) entries ?_
  rw [get?_append, hu]
  exact hentries

theorem Ordered.entry {entries : List (String × FileTree)} (h : (directory entries).Ordered)
    (hu : Entries.find? name entries = some u) : u.Ordered := by
  have hplace : (directory entries).get? [name] = some u := by
    rw [FileTree.get?, hu]
    rfl
  exact h.get? hplace

theorem Ordered.of_mem {entries : List (String × FileTree)} (h : (directory entries).Ordered)
    {p : String × FileTree} (hp : p ∈ entries) : p.2.Ordered :=
  h.entry (Entries.find?_eq_some_of_mem (h [] entries rfl) hp)

/-- A directory is ordered if its entries ascend and each of them is ordered. -/
theorem ordered_directory_iff {entries : List (String × FileTree)} :
    (directory entries).Ordered ↔ Ascending entries ∧ ∀ p ∈ entries, p.2.Ordered := by
  constructor
  · exact fun h => ⟨h [] entries rfl, fun p hp => h.of_mem hp⟩
  · rintro ⟨hascending, hentries⟩ place inner hinner
    cases place with
    | nil =>
      cases hinner
      exact hascending
    | cons name rest =>
      obtain ⟨u, hu, hrest⟩ := Option.bind_eq_some_iff.1 hinner
      exact hentries _ (Entries.mem_of_find?_eq_some hu) rest inner hrest

/-! ## Trees with names

A path text is cut at its slashes, and empty parts are passed over. So only a name that is not empty
and has no slash can be told from its path. -/

/-- No name in the tree is empty or has a slash. -/
def Named (t : FileTree) : Prop :=
  ∀ place u, t.get? place = some u → ∀ name ∈ place, name ≠ "" ∧ '/' ∉ name.toList

theorem Named.get? (h : t.Named) (hu : t.get? place = some u) : u.Named := by
  intro more v hv name hname
  refine h (place ++ more) v ?_ name (List.mem_append_right _ hname)
  rw [get?_append, hu]
  exact hv

theorem named_file (content : ByteArray) : (file content).Named := by
  intro place u hu
  cases place with
  | nil => exact fun name hname => nomatch hname
  | cons name rest => cases hu

theorem named_directory {entries : List (String × FileTree)}
    (h : ∀ p ∈ entries, (p.1 ≠ "" ∧ '/' ∉ p.1.toList) ∧ p.2.Named) : (directory entries).Named := by
  intro place u hu
  cases place with
  | nil => exact fun name hname => nomatch hname
  | cons name rest =>
    obtain ⟨v, hv, hrest⟩ := Option.bind_eq_some_iff.1 hu
    obtain ⟨hname, hnamed⟩ := h _ (Entries.mem_of_find?_eq_some hv)
    exact List.forall_mem_cons.2 ⟨hname, hnamed rest u hrest⟩

/-! ## Putting a tree at a place

`insert` goes down one name at a time and alters one entry on each level. `get?_insert_cons` says
what it does on one level; the laws for whole places follow by induction on the place. -/

/-- Behind a name only the entry of this name is new. -/
theorem get?_insert_cons {entries : List (String × FileTree)} (h : (directory entries).Ordered)
    (other : String) :
    (insert new (.directory entries) (name :: place)).get? (other :: more) =
      if other = name then
        (insert new ((Entries.find? name entries).getD empty) place).get? more
      else (directory entries).get? (other :: more) := by
  rw [insert, FileTree.get?, Entries.find?_alter (h [] entries rfl)]
  split
  · rfl
  · rfl

/-- The induction is on the place. -/
theorem Ordered.insert (ht : t.Ordered) (hnew : new.Ordered) (place : List String) :
    (insert new t place).Ordered := by
  induction place generalizing t with
  | nil => cases t <;> exact hnew
  | cons name rest ih =>
    cases t with
    | file content => exact ht
    | directory entries =>
      intro other inner hinner
      cases other with
      | nil =>
        cases hinner
        exact Entries.ascending_alter (ht [] entries rfl)
      | cons first more =>
        rw [get?_insert_cons ht] at hinner
        -- an entry of another name is as it was
        split at hinner
        · have hentry : ((Entries.find? name entries).getD empty).Ordered := by
            cases hfind : Entries.find? name entries with
            | none => exact ordered_empty
            | some u => exact ht.entry hfind
          exact ih hentry more inner hinner
        · exact ht _ inner hinner

/-- In a directory that is there one name has the new tree, and the others have what they had. -/
theorem get?_insert_concat (new : FileTree) (name other : String) (ht : t.Ordered)
    {entries : List (String × FileTree)}
    (hdirectory : t.get? place = some (.directory entries)) :
    (insert new t (place ++ [name])).get? (place ++ [other]) =
      if other = name then some new else t.get? (place ++ [other]) := by
  induction place generalizing t with
  | nil =>
    cases hdirectory
    rw [List.nil_append, List.nil_append, get?_insert_cons ht, insert, FileTree.get?]
  | cons first rest ih =>
    cases t with
    | file content => cases hdirectory
    | directory outer =>
      obtain ⟨u, hu, hinner⟩ := Option.bind_eq_some_iff.1 hdirectory
      rw [List.cons_append, List.cons_append, get?_insert_cons ht, if_pos rfl, hu,
        Option.getD_some, ih (ht.entry hu) hinner, FileTree.get?, hu, Option.bind_some]

/-! ## What is kept

Nothing that was there goes away or becomes something of another kind, and a file has another
content only if it is one of those that were written. This is what one write and a sequence of them
have in common, so that facts about paths need to be shown for it alone. -/

/-- Files stay files and directories directories, and only files at the given places change. -/
def Keeps (written : List String → Prop) (t t' : FileTree) : Prop :=
  ∀ place u, t.get? place = some u → ∃ u', t'.get? place = some u' ∧ u'.isFile = u.isFile ∧
    (u.isFile = true → ¬ written place → u' = u)

namespace Keeps

variable {written written' : List String → Prop}

theorem refl (t : FileTree) : Keeps written t t := fun _ u hu => ⟨u, hu, rfl, fun _ _ => rfl⟩

theorem trans (h : Keeps written t t') (h' : Keeps written' t' t'') :
    Keeps (fun place => written place ∨ written' place) t t'' := by
  intro place u hu
  obtain ⟨u', hu', hfile, hsame⟩ := h place u hu
  obtain ⟨u'', hu'', hfile', hsame'⟩ := h' place u' hu'
  refine ⟨u'', hu'', hfile'.trans hfile, fun hisFile hnot => ?_⟩
  rw [hsame' (hfile.trans hisFile) fun hw => hnot (.inr hw),
    hsame hisFile fun hw => hnot (.inl hw)]

theorem weaken (h : Keeps written t t') (hsub : ∀ place, written place → written' place) :
    Keeps written' t t' := by
  intro place u hu
  obtain ⟨u', hu', hfile, hsame⟩ := h place u hu
  exact ⟨u', hu', hfile, fun hisFile hnot => hsame hisFile fun hw => hnot (hsub place hw)⟩

theorem isSome (h : Keeps written t t') (hu : (t.get? place).isSome = true) :
    (t'.get? place).isSome = true := by
  obtain ⟨u, hu⟩ := Option.isSome_iff_exists.1 hu
  obtain ⟨u', hu', -⟩ := h place u hu
  rw [hu', Option.isSome_some]

theorem isDirectory (h : Keeps written t t') (hu : (t.get? place).any FileTree.isDirectory = true) :
    (t'.get? place).any FileTree.isDirectory = true := by
  obtain ⟨u, hu, hdirectory⟩ := (Option.any_eq_true _ _).1 hu
  obtain ⟨u', hu', hfile, -⟩ := h place u hu
  rw [hu']
  show (!u'.isFile) = true
  rw [hfile]
  exact hdirectory

/-- The induction is on the place. -/
theorem insert (new : FileTree) (ht : t.Ordered)
    (hplace : ∀ u, t.get? place = some u → u.isFile = true ∧ new.isFile = true) :
    Keeps (· = place) t (insert new t place) := by
  induction place generalizing t with
  | nil =>
    obtain ⟨hfile, hnew⟩ := hplace t rfl
    cases t with
    | directory entries => cases hfile
    | file content =>
      intro other u hu
      cases other with
      | nil =>
        cases hu
        exact ⟨new, rfl, hnew, fun _ hnot => absurd rfl hnot⟩
      | cons name rest => cases hu
  | cons name rest ih =>
    cases t with
    | file content => exact .refl _
    | directory entries =>
      intro other u hu
      cases other with
      | nil =>
        -- the directory itself is another one, but it stays a directory
        cases hu
        exact ⟨_, rfl, rfl, fun hfile => nomatch hfile⟩
      | cons first more =>
        rw [get?_insert_cons ht]
        split
        · next hfirst =>
          subst hfirst
          obtain ⟨inner, hinner, hmore⟩ := Option.bind_eq_some_iff.1 hu
          have hkept := ih (ht.entry hinner) fun u hu =>
            hplace u (by rw [FileTree.get?, hinner]; exact hu)
          obtain ⟨u', hu', hfile, hsame⟩ := hkept more u hmore
          rw [hinner]
          exact ⟨u', hu', hfile, fun hisFile hnot =>
            hsame hisFile fun hrest => hnot (congrArg (first :: ·) hrest)⟩
        · exact ⟨u, hu, rfl, fun _ _ => rfl⟩

/-- Nothing changes if nothing was at the place. -/
theorem insert_new (new : FileTree) (ht : t.Ordered) (hnone : t.get? place = none) :
    Keeps (fun _ => False) t (FileTree.insert new t place) := by
  have hkept := Keeps.insert new ht fun u hu => nomatch hnone.symm.trans hu
  intro other u hu
  obtain ⟨u', hu', hfile, hsame⟩ := hkept other u hu
  refine ⟨u', hu', hfile, fun hisFile _ => hsame hisFile ?_⟩
  rintro rfl
  cases hnone.symm.trans hu

/-- Parts lead where they led before: what is asked of the tree on the way is which directories
there are and which names they have, and both stay. -/
theorem follow? (h : Keeps written t t') (hplace : t.follow? place parts = some more) :
    t'.follow? place parts = some more := by
  induction parts generalizing place with
  | nil => exact hplace
  | cons part rest ih =>
    rw [FileTree.follow?] at hplace ⊢
    split at hplace
    · cases hplace
    · -- the directory that is left stays one, and the part decides what is asked next
      next hdirectory =>
      rw [if_neg (by rw [h.isDirectory (by simpa using hdirectory)]; exact Bool.false_ne_true)]
      split at hplace
      · next hidle =>
        rw [if_pos hidle]
        exact ih hplace
      · next hidle =>
        rw [if_neg hidle]
        split at hplace
        · next hup =>
          rw [if_pos hup]
          exact ih hplace
        · next hup =>
          rw [if_neg hup]
          split at hplace
          · next hsome =>
            rw [if_pos (h.isSome hsome)]
            exact ih hplace
          · cases hplace

end Keeps

/-- Making directories puts empty ones where nothing was. The induction is on the parts. -/
theorem keeps_makeDirectories (ht : t.Ordered) (place parts : List String) :
    (t.makeDirectories place parts).2.Ordered ∧
      Keeps (fun _ => False) t (t.makeDirectories place parts).2 := by
  induction parts generalizing t place with
  | nil => exact ⟨ht, .refl t⟩
  | cons part rest ih =>
    rw [makeDirectories]
    split
    · -- idle parts and steps upwards change the place only
      exact ih ht place
    · split
      · exact ih ht place.dropLast
      · split
        · exact ih ht (place ++ [part])
        · exact ⟨ht, .refl t⟩
        · next hnone =>
          split
          · -- a new directory is empty, so no file is changed
            have hnew := Keeps.insert_new empty ht hnone
            obtain ⟨hordered, hkept⟩ := ih (ht.insert ordered_empty _) (place ++ [part])
            exact ⟨hordered, (hnew.trans hkept).weaken fun _ h => h.elim id id⟩
          · exact ⟨ht, .refl t⟩

/-! ## Following parts -/

/-- A chain of parts is followed part by part. -/
theorem follow?_append (t : FileTree) (place parts more : List String) :
    t.follow? place (parts ++ more) = (t.follow? place parts).bind fun q => t.follow? q more := by
  induction parts generalizing place with
  | nil => rfl
  | cons part rest ih =>
    simp only [List.cons_append, FileTree.follow?, ih]
    split
    · rfl
    · split
      · rfl
      · split
        · rfl
        · split <;> rfl

/-- The directory around what is there is there. -/
theorem isSome_get?_dropLast (hplace : (t.get? place).isSome = true) :
    (t.get? place.dropLast).isSome = true := by
  rcases List.eq_nil_or_concat place with rfl | ⟨above, last, rfl⟩
  · exact hplace
  · rw [List.concat_eq_append, get?_append] at hplace
    rw [List.concat_eq_append, List.dropLast_concat]
    exact Option.isSome_of_isSome_bind hplace

/-- What parts lead to is there. -/
theorem isSome_of_follow? {last : List String} (hplace : (t.get? place).isSome = true)
    (h : t.follow? place parts = some last) : (t.get? last).isSome = true := by
  induction parts generalizing place with
  | nil =>
    cases h
    exact hplace
  | cons part rest ih =>
    rw [FileTree.follow?] at h
    split at h
    · cases h
    · split at h
      · exact ih hplace h
      · split at h
        · exact ih (isSome_get?_dropLast hplace) h
        · split at h
          · next hsome => exact ih hsome h
          · cases h

/-- From a directory a name leads to what is there. -/
theorem follow?_name {above : List String} (habove : (t.get? above).any isDirectory = true)
    (hname : FilePath.isName name = true) (hsome : (t.get? (above ++ [name])).isSome = true) :
    t.follow? above [name] = some (above ++ [name]) := by
  simp only [FilePath.isName, Bool.and_eq_true, Bool.not_eq_true', bne_iff_ne] at hname
  simp only [FileTree.follow?, habove, Bool.not_true, Bool.false_eq_true, if_false, hname.1.1,
    if_neg hname.1.2, hsome, if_true]

end EndpointDocs.FileTree
