import EndpointDocs.FileTree
import EndpointDocs.Shape

/-!
# Source files

    paths ──load──▶ SourceFiles ──resolver──▶ Resolver

The types that annotations name are declared in source files. A path names a file, which is read
whatever its name is, or a directory: then every file below it with the extension `rs` is read, in
ascending order of the names on the way, unless one of these names is hidden. A file that cannot be
read or does not parse is skipped with a warning, so that it does not hide the types of the others.
-/

namespace EndpointDocs

structure SourceFile where
  path : String
  items : List Source.Item

inductive SkippedFile where
  | unreadable (path : String)
  | unparsable (path : String)
deriving DecidableEq, Repr

def SkippedFile.path : SkippedFile → String
  | unreadable path => path
  | unparsable path => path

def SkippedFile.message (s : SkippedFile) : String :=
  "Skipping " ++ s.path ++ ": " ++
    match s with
    | unreadable path => "Failed to read file: " ++ path
    | unparsable path => "Failed to parse Rust syntax in file: " ++ path

/-- Nothing is at a path that was given. -/
structure MissingPath where
  path : String
deriving DecidableEq, Repr

def MissingPath.message (m : MissingPath) : String := "Module path does not exist: " ++ m.path

/-- The files that were read and those that were skipped, each in order. -/
structure SourceFiles where
  files : List SourceFile := []
  skipped : List SkippedFile := []

namespace SourceFiles

/-! ### Finding files -/

/-- Names below a directory that are not looked at: those that start with a point, and `target`. -/
def isHidden (name : String) : Bool := name.toList.head? == some '.' || name == "target"

mutual

/-- The files of a tree on the way to which no name is hidden. -/
def visible : FileTree → List (List String × ByteArray)
  | .file content => [([], content)]
  | .directory entries => visibleEntries entries

def visibleEntries : List (String × FileTree) → List (List String × ByteArray)
  | [] => []
  | (name, t) :: rest =>
    (if isHidden name then [] else (visible t).map fun f => (name :: f.1, f.2)) ++
      visibleEntries rest

end

def isSource (names : List String) : Bool :=
  (names.getLast?.bind fun name => FilePath.extensionOfName? name.toList) == some "rs".toList

/-- Names come before others if the first difference says so, or if they end where the others go
on. -/
def comesFirst : List String → List String → Bool
  | [], _ => true
  | _ :: _, [] => false
  | a :: as, b :: bs => a < b || (a == b && comesFirst as bs)

/-- The source files below a directory, in ascending order of the names that lead to them. -/
def below (entries : List (String × FileTree)) : List (List String × ByteArray) :=
  ((visibleEntries entries).filter fun f => isSource f.1).mergeSort fun f g => comesFirst f.1 g.1

/-- The files that a path stands for, with their paths. -/
def candidates (root : String) : FileTree → List (String × ByteArray)
  | .file content => [(root, content)]
  | .directory entries => (below entries).map fun f => (f.1.foldl FilePath.join root, f.2)

/-! ### Reading files -/

def readFile (path : String) (content : ByteArray) : Except SkippedFile SourceFile :=
  match String.fromUTF8? content with
  | none => .error (.unreadable path)
  | some text =>
    match Source.items? text with
    | none => .error (.unparsable path)
    | some items => .ok ⟨path, items⟩

/-- Read files; what cannot be read is skipped. -/
def ofCandidates : List (String × ByteArray) → SourceFiles
  | [] => {}
  | (path, content) :: rest =>
    let s := ofCandidates rest
    match readFile path content with
    | .ok file => { s with files := file :: s.files }
    | .error skipped => { s with skipped := skipped :: s.skipped }

def append (s t : SourceFiles) : SourceFiles := ⟨s.files ++ t.files, s.skipped ++ t.skipped⟩

/-- Load the files of all paths in order; `look` says what is at a path. -/
def load (look : String → Option FileTree) : List String → Except MissingPath SourceFiles
  | [] => .ok {}
  | root :: rest =>
    match look root with
    | none => .error ⟨root⟩
    | some t => (load look rest).map (append (ofCandidates (candidates root t)))

def resolver (s : SourceFiles) : Resolver := .ofSources (s.files.map SourceFile.items)

end SourceFiles

end EndpointDocs
