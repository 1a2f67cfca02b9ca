import EndpointDocs.Format

/-!
# Arguments of the command line

    List String ──Arguments.parse──▶ Arguments

An argument that starts with a hyphen names options: a word behind two hyphens, or letters behind
one. An option takes its value from the same argument (`--format=json`, `-fjson`) or from the next
one, which must not look like an option itself. The only other argument is the path of the
annotations; behind `--` nothing is an option any more.

A value is taken first and checked when the argument behind it has been recognised, or at the end.
So of two faults an unknown option is reported even if it stands behind a bad value.
-/

namespace EndpointDocs

inductive ValueOption where
  | config | modulePath | format | output | documentsDir | title | apiVersion
deriving DecidableEq, Repr

inductive Flag where
  | verbose | help | version
deriving DecidableEq, Repr

inductive NamedOption where
  | value (o : ValueOption)
  | flag (f : Flag)
deriving DecidableEq, Repr

namespace NamedOption

def ofWord? (word : String) : Option NamedOption :=
  match word with
  | "config" => some (.value .config)
  | "module-path" => some (.value .modulePath)
  | "format" => some (.value .format)
  | "output" => some (.value .output)
  | "documents-dir" => some (.value .documentsDir)
  | "title" => some (.value .title)
  | "api-version" => some (.value .apiVersion)
  | "verbose" => some (.flag .verbose)
  | "help" => some (.flag .help)
  | "version" => some (.flag .version)
  | _ => none

def ofLetter? (letter : Char) : Option NamedOption :=
  match letter with
  | 'c' => some (.value .config)
  | 'm' => some (.value .modulePath)
  | 'f' => some (.value .format)
  | 'o' => some (.value .output)
  | 'd' => some (.value .documentsDir)
  | 'v' => some (.flag .verbose)
  | 'h' => some (.flag .help)
  | 'V' => some (.flag .version)
  | _ => none

end NamedOption

inductive ArgumentError where
  | unknownArgument
  /-- A value is missing, or it is an empty path or no format. -/
  | invalidValue
  | missingRequiredArgument
  /-- An option that may stand once stands twice. -/
  | argumentConflict
  /-- A flag has a value. -/
  | tooManyValues
  /-- The user asks for help, or for the version. -/
  | displayHelp
  | displayVersion
deriving DecidableEq, Repr

def ArgumentError.message : ArgumentError → String
  | unknownArgument => "unexpected argument"
  | invalidValue => "invalid value for an option"
  | missingRequiredArgument => "the path of the annotations is missing"
  | argumentConflict => "an option cannot be used twice"
  | tooManyValues => "unexpected value for a flag"
  | displayHelp => "help"
  | displayVersion => "version"

structure Arguments where
  annotations : String
  config : Option String := none
  modulePaths : List String := []
  format : Format := .yaml
  output : Option String := none
  documentsDir : Option String := none
  title : Option String := none
  apiVersion : Option String := none
  verbose : Bool := false
deriving DecidableEq, Repr

namespace Arguments

def inputs (a : Arguments) : List String := a.annotations :: a.config.toList ++ a.modulePaths

def usage : String := "\n".intercalate [
  "Usage: endpoint-docs [OPTIONS] <ANNOTATIONS>",
  "",
  "  -c, --config <FILE>         configuration document",
  "  -m, --module-path <PATH>    Rust file or directory to look types up in (repeatable)",
  "  -f, --format <FORMAT>       yaml (default) or json",
  "  -o, --output <FILE>         write the result to a file",
  "  -d, --documents-dir <DIR>   write every document to a file in this directory",
  "      --title <TITLE>         title of documents that configure none",
  "      --api-version <VERSION> version of documents that configure none",
  "  -v, --verbose               verbose output",
  "  -h, --help                  print this text",
  "  -V, --version               print the version"]

/-! ### Values -/

inductive Target where
  | annotations
  | option (o : ValueOption)
deriving DecidableEq, Repr

structure Given where
  annotations : Option String := none
  config : Option String := none
  modulePaths : List String := []
  format : Option Format := none
  output : Option String := none
  documentsDir : Option String := none
  title : Option String := none
  apiVersion : Option String := none
  verbose : Bool := false

def readPath (value : String) : Except ArgumentError String :=
  if value = "" then .error .invalidValue else .ok value

def readFormat (value : String) : Except ArgumentError Format :=
  match Format.parse? value with
  | some f => .ok f
  | none => .error .invalidValue

/-- A value that may be given once. -/
def once {α : Type} (known : Option α) (value : Except ArgumentError α) :
    Except ArgumentError (Option α) :=
  if known.isSome then .error .argumentConflict else value.map some

def Given.set (g : Given) (target : Target) (value : String) : Except ArgumentError Given :=
  match target with
  | .annotations => return { g with annotations := ← once g.annotations (readPath value) }
  | .option .config => return { g with config := ← once g.config (readPath value) }
  | .option .modulePath =>
    return { g with modulePaths := g.modulePaths ++ [← readPath value] }
  | .option .format => return { g with format := ← once g.format (readFormat value) }
  | .option .output => return { g with output := ← once g.output (readPath value) }
  | .option .documentsDir =>
    return { g with documentsDir := ← once g.documentsDir (readPath value) }
  | .option .title => return { g with title := ← once g.title (.ok value) }
  | .option .apiVersion => return { g with apiVersion := ← once g.apiVersion (.ok value) }

def Given.raise (g : Given) : Flag → Except ArgumentError Given
  | .verbose => if g.verbose then .error .argumentConflict else .ok { g with verbose := true }
  | .help => .error .displayHelp
  | .version => .error .displayVersion

/-! ### Reading -/

structure Reading where
  given : Given := {}
  /-- The last target, with its value once that has come. -/
  pending : Option (Target × Option String) := none
  /-- The path of the annotations has come. -/
  positional : Bool := false

namespace Reading

def settle (r : Reading) : Except ArgumentError Reading :=
  match r.pending with
  | none => .ok r
  | some (_, none) => .error .invalidValue
  | some (target, some value) =>
    return { r with given := ← r.given.set target value, pending := none }

/-- An option, perhaps with a value in the same argument. -/
def value (r : Reading) (o : ValueOption) (attached : Option String) :
    Except ArgumentError Reading := do
  let r ← r.settle
  match attached with
  | none => return { r with pending := some (.option o, none) }
  | some v => return { r with given := ← r.given.set (.option o) v }

def flag (r : Reading) (f : Flag) : Except ArgumentError Reading := do
  let r ← r.settle
  return { r with given := ← r.given.raise f }

/-- The text behind two hyphens. -/
def long (r : Reading) (text : List Char) : Except ArgumentError Reading :=
  let word := String.ofList (text.takeWhile (· != '='))
  let attached := match text.dropWhile (· != '=') with
    | _ :: v => some (String.ofList v)
    | [] => none
  match NamedOption.ofWord? word with
  | none => .error .unknownArgument
  | some (.value o) => r.value o attached
  | some (.flag f) => if attached.isSome then .error .tooManyValues else r.flag f

/-- The letters behind one hyphen; what follows the letter of an option with a value is its
value. -/
def short (r : Reading) : List Char → Except ArgumentError Reading
  | [] => .ok r
  | c :: rest =>
    match NamedOption.ofLetter? c with
    | none => .error .unknownArgument
    | some (.flag f) => do
      let r ← r.flag f
      r.short rest
    | some (.value o) =>
      match rest with
      | [] => r.value o none
      | '=' :: v => r.value o (some (String.ofList v))
      | v => r.value o (some (String.ofList v))

def plain (r : Reading) (arg : String) : Except ArgumentError Reading :=
  if r.positional then .error .unknownArgument
  else do
    let r ← r.settle
    return { r with pending := some (.annotations, some arg), positional := true }

/-- Read an argument in front of which there is no `--`. -/
def argument (r : Reading) (arg : String) : Except ArgumentError Reading :=
  match arg.toList with
  | '-' :: '-' :: text => r.long text
  | '-' :: c :: text => r.short (c :: text)
  | _ =>
    match r.pending with
    | some (target, none) => .ok { r with pending := some (target, some arg) }
    | _ => r.plain arg

def arguments (r : Reading) : List String → Except ArgumentError Reading
  | [] => .ok r
  | arg :: rest =>
    if arg = "--" then rest.foldlM plain r
    else do
      let r ← r.argument arg
      r.arguments rest

/-- The arguments that were read; the path of the annotations must be there. -/
def finish (r : Reading) : Except ArgumentError Arguments := do
  let g := (← r.settle).given
  match g.annotations with
  | none => .error .missingRequiredArgument
  | some annotations => return {
      annotations, config := g.config, modulePaths := g.modulePaths
      format := g.format.getD .yaml, output := g.output, documentsDir := g.documentsDir
      title := g.title, apiVersion := g.apiVersion, verbose := g.verbose }

end Reading

def parse (args : List String) : Except ArgumentError Arguments := do
  (← ({} : Reading).arguments args).finish

end Arguments

end EndpointDocs
