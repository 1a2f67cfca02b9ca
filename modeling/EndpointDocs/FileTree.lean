import EndpointDocs.FilePath
import EndpointDocs.KeyMap

/-!
# File trees

Directories with their files make a tree. A *place* is the list of names that leads from the top of
the tree to a file or directory. The parts of a path lead from one place to another (`follow?`), and
the part `..` goes back on the way; at the top it leads nowhere else.
-/

namespace EndpointDocs

inductive FileTree where
  | file (content : ByteArray)
  /-- The entries are in ascending order. -/
  | directory (entries : List (String × FileTree))
deriving Inhabited

namespace FileTree

def empty : FileTree := .directory []

def ofText (text : String) : FileTree := .file text.toUTF8

def isFile : FileTree → Bool
  | .file _ => true
  | .directory _ => false

def isDirectory (t : FileTree) : Bool := !t.isFile

def text? : FileTree → Option String
  | .file content => String.fromUTF8? content
  | .directory _ => none

theorem text?_ofText (text : String) : (ofText text).text? = some text := by
  simp only [ofText, text?, String.fromUTF8?, String.toUTF8_eq_toByteArray]
  rw [dif_pos text.isValidUTF8]
  rfl

theorem ofText_inj {s t : String} (h : ofText s = ofText t) : s = t := by
  have htext := congrArg text? h
  rwa [text?_ofText, text?_ofText, Option.some.injEq] at htext

/-! ### Places -/

def get? : FileTree → List String → Option FileTree
  | t, [] => some t
  | .directory entries, name :: rest => (Entries.find? name entries).bind fun t => get? t rest
  | .file _, _ :: _ => none

/-- Put a tree at a place and make the directories that lead to it. Below a file there is no
place. -/
def insert (new : FileTree) : FileTree → List String → FileTree
  | _, [] => new
  | .directory entries, name :: rest =>
    .directory (Entries.alter name (fun t => insert new (t.getD empty) rest) entries)
  | .file content, _ :: _ => .file content

mutual

def files : FileTree → List (List String × ByteArray)
  | .file content => [([], content)]
  | .directory entries => filesOfEntries entries

def filesOfEntries : List (String × FileTree) → List (List String × ByteArray)
  | [] => []
  | (name, t) :: rest =>
    (files t).map (fun f => (name :: f.1, f.2)) ++ filesOfEntries rest

end

/-! ### Following paths -/

/-- The place that a list of parts leads to from a place. Only a directory can be left, and the
directory around the top is the top. -/
def follow? (t : FileTree) : List String → List String → Option (List String)
  | place, [] => some place
  | place, part :: rest =>
    if !(t.get? place).any isDirectory then none
    else if FilePath.isIdle part then follow? t place rest
    else if part = ".." then follow? t place.dropLast rest
    else if (t.get? (place ++ [part])).isSome then follow? t (place ++ [part]) rest
    else none

/-- Follow parts from a place and make the directories that are missing; what was made stays if a
later part leads nowhere. -/
def makeDirectories : FileTree → (place parts : List String) → Bool × FileTree
  | t, _, [] => (true, t)
  | t, place, part :: rest =>
    if FilePath.isIdle part then makeDirectories t place rest
    else if part = ".." then makeDirectories t place.dropLast rest
    else
      match t.get? (place ++ [part]) with
      | some (.directory _) => makeDirectories t (place ++ [part]) rest
      | some (.file _) => (false, t)
      | none =>
        if FilePath.isName part then
          makeDirectories (insert empty t (place ++ [part])) (place ++ [part]) rest
        else (false, t)

/-! ### Laws -/

/-- A place behind another one is found from there. -/
theorem get?_append (t : FileTree) (place more : List String) :
    t.get? (place ++ more) = (t.get? place).bind fun u => u.get? more := by
  induction place generalizing t with
  | nil => simp [get?]
  | cons name rest ih =>
    cases t with
    | file content => simp [get?]
    | directory entries =>
      rw [List.cons_append, get?, get?, Option.bind_assoc]
      exact congrArg _ (funext fun u => ih u)

end FileTree

end EndpointDocs
