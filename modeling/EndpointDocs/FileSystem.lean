import EndpointDocs.FileTree

/-!
# File systems

What a program sees of the files around it: a tree from the root on, and the place of the current
directory in it. A path text is followed to a place, an absolute one from the root and any other one
from the current directory.

    path text ──start?──▶ place to start from ──follow?──▶ place ──get?──▶ FileTree

Writing makes the directories that are missing.
-/

namespace EndpointDocs

structure FileSystem where
  /-- What is below the root. -/
  tree : FileTree
  /-- The place of the current directory. -/
  here : List String
deriving Inhabited

namespace FileSystem

/-! ### Following paths -/

/-- The place from which a path is followed. -/
def origin (s : FileSystem) (path : String) : List String :=
  if FilePath.isAbsolute path then [] else s.here

/-- The directory from which a path that can be asked for is followed. -/
def start? (s : FileSystem) (path : String) : Option (List String) :=
  if FilePath.isValid path && (s.tree.get? (s.origin path)).any FileTree.isDirectory then
    some (s.origin path)
  else none

/-- The place that a path leads to. The empty path leads nowhere. -/
def locate? (s : FileSystem) (path : String) : Option (List String) :=
  if path = "" then none
  else (s.start? path).bind fun place => s.tree.follow? place (FilePath.parts path)

def at? (s : FileSystem) (path : String) : Option FileTree := (s.locate? path).bind s.tree.get?

/-! ### Writing -/

inductive WriteError where
  /-- The directory of the file cannot be made. -/
  | noDirectory (path : String)
  | notWritten (path : String)
deriving DecidableEq, Repr

def WriteError.message : WriteError → String
  | noDirectory path => "Failed to create directory: " ++ path
  | notWritten path => "Failed to write to file: " ++ path

/-- Make a directory with those around it; whether it is there then. -/
def makeDirectory (s : FileSystem) (path : String) : Bool × FileSystem :=
  if path = "" then (true, s)
  else
    match s.start? path with
    | none => (false, s)
    | some place =>
      let (made, tree) := s.tree.makeDirectories place (FilePath.parts path)
      (made, { s with tree })

/-- The place of a file that a path can be written to: its directory is there, and it is itself no
directory. -/
def placeToWrite? (s : FileSystem) (path : String) : Option (List String) := do
  let start ← s.start? path
  let parts := FilePath.parts path
  let name ← parts.getLast?
  if !FilePath.isName name then failure
  let above ← s.tree.follow? start parts.dropLast
  if (s.tree.get? above).any FileTree.isFile ||
      (s.tree.get? (above ++ [name])).any FileTree.isDirectory then failure
  return above ++ [name]

def put (s : FileSystem) (place : List String) (text : String) : FileSystem :=
  { s with tree := .insert (.ofText text) s.tree place }

def write (s : FileSystem) (path text : String) : Except WriteError Unit × FileSystem :=
  let directory := (FilePath.parent? path).getD ""
  match s.makeDirectory directory with
  | (false, s) => (.error (.noDirectory directory), s)
  | (true, s) =>
    match s.placeToWrite? path with
    | none => (.error (.notWritten path), s)
    | some place => (.ok (), s.put place text)

/-- Write texts to paths in order, up to the first that cannot be written. -/
def writeAll : FileSystem → List (String × String) → Except WriteError Unit × FileSystem
  | s, [] => (.ok (), s)
  | s, (path, text) :: rest =>
    match s.write path text with
    | (.ok (), s) => writeAll s rest
    | (.error e, s) => (.error e, s)

end FileSystem

end EndpointDocs
