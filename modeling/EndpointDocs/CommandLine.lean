import EndpointDocs.CommandLine.Arguments
import EndpointDocs.Element.File
import EndpointDocs.FileSystem
import EndpointDocs.Generation
import EndpointDocs.SourceFiles

/-!
# Runs of the program

    Arguments ──check──▶ Arguments ──compile──▶ GenerationResult ──writes──▶ files

A run loads the annotations, the configuration and the source files, generates the documents with
the standard filters, and prints the result or writes it to a file. With a directory for documents,
each of them is also written to a file of its own there.

What is read, what is printed and what is written to which path are functions of the arguments
(`compile`, `printed`, `writes`); `run` does all of it on a `FileSystem`, in which paths are
followed from the root or from the current directory.
-/

namespace EndpointDocs.CommandLine

inductive RunError where
  | noAnnotations (path : String)
  | noConfiguration (path : String)
  | noModulePath (missing : MissingPath)
  | notLoaded (error : Element.LoadError)
  /-- A type needs more depth than the run has. -/
  | tooDeep
  | notWritten (error : FileSystem.WriteError)
deriving DecidableEq, Repr

def RunError.message : RunError → String
  | noAnnotations path => "Annotation document does not exist: " ++ path
  | noConfiguration path => "Configuration document does not exist: " ++ path
  | noModulePath missing => missing.message
  | notLoaded error => error.message
  | tooDeep => "types are nested too deep"
  | notWritten error => error.message

/-! ### Reading -/

/-- A path leads to a file. -/
def isFileAt (look : String → Option FileTree) (path : String) : Bool :=
  (look path).any FileTree.isFile

/-- Check that the paths of the arguments lead to something; `look` says what is at a path. -/
def check (look : String → Option FileTree) (a : Arguments) : Except RunError Unit :=
  if !isFileAt look a.annotations then .error (.noAnnotations a.annotations)
  else match a.config.filter fun path => !isFileAt look path with
    | some path => .error (.noConfiguration path)
    | none =>
      match a.modulePaths.find? fun path => (look path).isNone with
      | some path => .error (.noModulePath ⟨path⟩)
      | none => .ok ()

def settings (a : Arguments) : Settings :=
  let d : Settings := {}
  { title := a.title.getD d.title, version := a.apiVersion.getD d.version }

/-- The result for the files that the arguments name. Types are followed to the given depth. -/
def compile (depth : Nat) (look : String → Option FileTree) (a : Arguments) :
    Except RunError GenerationResult := do
  check look a
  let annotations ← (Element.load look a.annotations).mapError .notLoaded
  let config ← match a.config with
    | none => pure none
    | some path => ((Element.load look path).map some).mapError .notLoaded
  let sources ← (SourceFiles.load look a.modulePaths).mapError .noModulePath
  let plan := Plan.ofConfig .standard (settings a) sources.resolver depth config
  match plan.generate annotations with
  | some result => return result
  | none => .error .tooDeep

/-! ### Writing -/

def resultText (a : Arguments) (result : GenerationResult) : String :=
  a.format.render result.toJson

/-- What a run prints: the result, unless it goes to a file. -/
def printed (a : Arguments) (result : GenerationResult) : String :=
  if a.output.isSome then "" else resultText a result ++ "\n"

/-- The paths and texts of the documents in their directory, in the order of the variants. -/
def documentFiles (format : Format) (directory : String) (documents : Documents) :
    List (String × String) :=
  documents.entries.map fun p =>
    (FilePath.join directory (p.1.fileName format), format.render p.2.toJson)

/-- The files that a run writes, in order. -/
def writes (a : Arguments) (result : GenerationResult) : List (String × String) :=
  (a.output.map fun path => (path, resultText a result)).toList ++
    (a.documentsDir.map fun directory => documentFiles a.format directory result.documents).getD []

structure Completed where
  result : GenerationResult
  printed : String
  files : FileSystem

def run (depth : Nat) (files : FileSystem) (a : Arguments) : Except RunError Completed := do
  let result ← compile depth files.at? a
  match files.writeAll (writes a result) with
  | (.ok (), files) => return ⟨result, printed a result, files⟩
  | (.error e, _) => .error (.notWritten e)

end EndpointDocs.CommandLine
