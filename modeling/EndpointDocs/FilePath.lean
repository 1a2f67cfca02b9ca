import EndpointDocs.Text.Split

/-!
# Path texts

A path is a text of parts between slashes. An empty part and the part `.` change nothing, and `..`
leads to the directory around; every other part is a name. Paths are kept as they were written,
so that messages show them unchanged.

An empty first part stands for the root, and a `.` in front is kept when a path is cut.
-/

namespace EndpointDocs.FilePath

def parts (path : String) : List String := (Text.splitAt '/' path.toList).map String.ofList

def ofParts (parts : List String) : String :=
  String.ofList (Text.joinWith '/' (parts.map String.toList))

/-- The path leads from the root, wherever it is followed. -/
def isAbsolute (path : String) : Bool := path.toList.head? == some '/'

/-- A part that changes nothing. -/
def isIdle (part : String) : Bool := part == "" || part == "."

/-- Drop the idle parts at the end; the first part stays. -/
def dropIdleEnd : List String → List String
  | [] => []
  | first :: rest => first :: (rest.reverse.dropWhile isIdle).reverse

/-- The path of the directory in which a path ends; none for the root and the empty path. -/
def parent? (path : String) : Option String :=
  match dropIdleEnd (parts path) with
  | [] => none
  | [first] => if first = "" then none else some ""
  | first :: more =>
    let above := dropIdleEnd (first :: more).dropLast
    some (if above = [""] then "/" else ofParts above)

/-- The name at the end of a path; none if the path ends in a part that is no name. -/
def name? (path : String) : Option String :=
  ((dropIdleEnd (parts path)).getLast?).filter fun part => !isIdle part && part != ".."

/-- What stands behind the last point of a name, if there is a point and something in front. -/
def extensionOfName? (name : List Char) : Option (List Char) :=
  let reversed := name.reverse
  match reversed.dropWhile (· != '.') with
  | _ :: _ :: _ => some (reversed.takeWhile (· != '.')).reverse
  | _ => none

def extension? (path : String) : Option String :=
  ((name? path).bind fun name => extensionOfName? name.toList).map String.ofList

/-- The path of a name in a directory. -/
def join (directory name : String) : String :=
  if directory.toList.getLast?.all (· == '/') then directory ++ name
  else directory ++ "/" ++ name

/-! ### Limits -/

def maxNameSize : Nat := 255

def maxSize : Nat := 4095

/-- A name that a file can have. -/
def isName (part : String) : Bool :=
  !isIdle part && part != ".." && part.utf8ByteSize ≤ maxNameSize

/-- A path that can be asked for at all. -/
def isValid (path : String) : Bool :=
  !path.toList.contains (Char.ofNat 0) && path.utf8ByteSize ≤ maxSize

/-! ### Laws -/

theorem ofParts_parts (path : String) : ofParts (parts path) = path := by
  simp only [ofParts, parts, List.map_map]
  rw [show String.toList ∘ String.ofList = id from funext fun _ => String.toList_ofList,
    List.map_id, Text.joinWith_splitAt, String.ofList_toList]

theorem slash_not_mem_of_mem_parts {path part : String} (h : part ∈ parts path) :
    '/' ∉ part.toList := by
  obtain ⟨cs, hcs, rfl⟩ := List.mem_map.1 h
  rw [String.toList_ofList]
  exact Text.not_mem_of_mem_splitAt hcs

/-- The parts that a path has in common with the paths of all names in it. -/
def partsBelow (directory : String) : List String :=
  if directory.toList.getLast?.all (· == '/') then (parts directory).dropLast else parts directory

/-- The path of a name in a directory has one part more, the name. -/
theorem parts_join (directory : String) {name : String} (h : '/' ∉ name.toList) :
    parts (join directory name) = partsBelow directory ++ [name] := by
  have hname : Text.splitAt '/' name.toList = [name.toList] := Text.splitAt_of_not_mem h
  -- the name is one piece, so a slash in front of it ends the pieces of the directory
  have hbehind : ∀ front : List Char,
      (Text.splitAt '/' (front ++ '/' :: name.toList)).map String.ofList =
        (Text.splitAt '/' front).map String.ofList ++ [name] := by
    intro front
    rw [Text.splitAt_append_cons, hname, List.map_append, List.map_singleton, String.ofList_toList]
  unfold join partsBelow parts
  split
  · next hend =>
    rw [String.toList_append]
    rcases List.eq_nil_or_concat directory.toList with hnil | ⟨front, last, hfront⟩
    · -- the empty text ends in no separator, and the name alone is the path
      rw [hnil, List.nil_append, hname, List.map_singleton, String.ofList_toList]
      rfl
    · rw [List.concat_eq_append] at hfront
      -- a directory that ends in a slash has an empty part last, which the name replaces
      rw [hfront, List.getLast?_concat, Option.all_some, beq_iff_eq] at hend
      have hslash : Text.splitAt '/' (front ++ ['/']) = Text.splitAt '/' front ++ [[]] :=
        Text.splitAt_append_cons '/' front []
      rw [hfront, hend, List.append_assoc, List.singleton_append, hbehind, hslash, List.map_append,
        List.map_singleton, List.dropLast_concat]
  · have hslash : "/".toList = ['/'] := rfl
    rw [String.toList_append, String.toList_append, hslash, List.append_assoc]
    exact hbehind directory.toList

/-- The path of a name in a directory ends in the name. -/
theorem getLast?_parts_join (directory : String) {name : String} (h : '/' ∉ name.toList) :
    (parts (join directory name)).getLast? = some name := by
  rw [parts_join directory h, List.getLast?_concat]

/-- The parts of a path that leads through names to one below a directory. -/
theorem parts_foldl_join (directory : String) {names : List String} (hne : names ≠ [])
    (h : ∀ name ∈ names, name ≠ "" ∧ '/' ∉ name.toList) :
    parts (names.foldl join directory) = partsBelow directory ++ names := by
  induction names generalizing directory with
  | nil => exact absurd rfl hne
  | cons name rest ih =>
    obtain ⟨⟨hname, hslash⟩, hrest⟩ := List.forall_mem_cons.1 h
    rw [List.foldl_cons]
    cases rest with
    | nil => exact parts_join directory hslash
    | cons next rest =>
      -- the path so far ends in a name, so that a slash comes behind it
      have hbelow : partsBelow (join directory name) = parts (join directory name) := by
        refine if_neg fun hend => ?_
        obtain ⟨front, last, hlast⟩ := (List.eq_nil_or_concat name.toList).resolve_left
          fun hnil => hname (String.toList_inj.1 hnil)
        rw [List.concat_eq_append] at hlast
        have hjoin : (join directory name).toList.getLast? = some last := by
          unfold join
          split <;>
            simp only [String.toList_append, hlast, ← List.append_assoc, List.getLast?_concat]
        rw [hjoin, Option.all_some, beq_iff_eq] at hend
        exact hslash (by simp [hlast, hend])
      rw [ih (join directory name) (List.cons_ne_nil _ _) hrest, hbelow,
        parts_join directory hslash, List.append_assoc, List.singleton_append]

example : ["a/b", "a//b", "./d//g", "a/", "/x", ".", "", "/"].map parent? =
    [some "a", some "a", some "./d", some "", some "/", some "", none, none] := by decide +kernel

example : ["m/a.rs", ".rs", "a.tar.gz", "a.", "x/..", "a.json/"].map extension? =
    [some "rs", none, some "gz", some "", none, some "json"] := by decide +kernel

end EndpointDocs.FilePath
