import EndpointDocs.CommandLine

/-!
# The program

Reads the files that the arguments name into memory, compiles them, and prints or writes what comes
out of it.
-/

namespace EndpointDocs.CommandLine

def programDepth : Nat := 10000

/-- Read what is at a path, relative to the current directory; below a directory, hidden names are
left out. -/
partial def readTree (path : String) : IO (Option FileTree) := do
  let location := (← IO.currentDir) / path
  if ← location.isDir then
    let names := (← location.readDir).toList.map (·.fileName)
    let trees ← (names.filter fun name => !SourceFiles.isHidden name).filterMapM fun name => do
      return (← readTree (FilePath.join path name)).map fun t => (name, t)
    return some (.directory (Entries.ofList trees))
  else if ← location.pathExists then
    return some (.file (← IO.FS.readBinFile location))
  else return none

def writeText (path text : String) : IO (Except FileSystem.WriteError Unit) := do
  let here ← IO.currentDir
  let directory := (FilePath.parent? path).getD ""
  match ← (IO.FS.createDirAll (here / directory)).toBaseIO with
  | .error _ => return .error (.noDirectory directory)
  | .ok () =>
    match ← (IO.FS.writeFile (here / path) text).toBaseIO with
    | .error _ => return .error (.notWritten path)
    | .ok () => return .ok ()

/-- Write texts to paths, up to the first that cannot be written. -/
def writeTexts : List (String × String) → IO (Except RunError Unit)
  | [] => return .ok ()
  | (path, text) :: rest => do
    match ← writeText path text with
    | .error e => return .error (.notWritten e)
    | .ok () => writeTexts rest

def runOnFiles (a : Arguments) : IO (Except RunError Unit) := do
  let known ← a.inputs.mapM fun path => return (path, ← readTree path)
  let look := fun path => (known.find? fun p => p.1 = path).bind Prod.snd
  match compile programDepth look a with
  | .error e => return .error e
  | .ok result =>
    IO.print (printed a result)
    writeTexts (writes a result)

end EndpointDocs.CommandLine

def main (args : List String) : IO UInt32 := do
  match EndpointDocs.Arguments.parse args with
  | .error .displayHelp =>
    IO.println EndpointDocs.Arguments.usage
    return 0
  | .error .displayVersion =>
    IO.println "endpoint-docs 0.1.0"
    return 0
  | .error e =>
    IO.eprintln ("error: " ++ e.message)
    return 2
  | .ok a =>
    match ← EndpointDocs.CommandLine.runOnFiles a with
    | .error e =>
      IO.eprintln ("Error: " ++ e.message)
      return 1
    | .ok () => return 0
