import EndpointDocs.Url.Host
import EndpointDocs.Url.Path

/-!
# Locations

    text ──Url.parse?──▶ Url          an absolute location
    text ──Url.resolve?──▶ Url        the same, or a reference relative to `http://localhost/`

A location has a scheme, perhaps a host and a port, and a path. The schemes of the web (`http`,
`https`, `ws`, `wss`, `ftp`) always have a host, and their paths are separated by either slash;
`file` may have one. Of any other scheme a text without a slash behind the colon is not divided into
segments.

User names, queries and fragments are read and dropped. `origin` is what two locations share if
they come from the same server.
-/

namespace EndpointDocs

/-- The path of a location. -/
inductive Url.Path where
  | segments (list : List (List Char))
  /-- A text that is not divided: nothing can be relative to it. -/
  | undivided (text : List Char)
deriving DecidableEq, Repr

structure Url where
  scheme : String
  host : Option String := none
  /-- The port, unless it is the scheme's own. -/
  port : Option Nat := none
  path : Url.Path
deriving DecidableEq, Repr

namespace Url

open Text

/-! ### Schemes -/

/-- The ports of the web's schemes. -/
def defaultPort? (scheme : String) : Option Nat :=
  match scheme with
  | "http" | "ws" => some 80
  | "https" | "wss" => some 443
  | "ftp" => some 21
  | _ => none

/-- How the text behind a scheme is read. -/
inductive Kind where
  | web | file | other
deriving DecidableEq, Repr

def kindOf (scheme : String) : Kind :=
  if scheme = "file" then .file
  else if (defaultPort? scheme).isSome then .web
  else .other

def isSlash (kind : Kind) (c : Char) : Bool := c == '/' || (c == '\\' && kind != .other)

def endsPath (c : Char) : Bool := c == '?' || c == '#'

def isSchemeChar (c : Char) : Bool := c.isAlphanum || c == '+' || c == '-' || c == '.'

/-- The scheme in front of a text, in small letters, and what stands behind its colon. -/
def scheme? (cs : List Char) : Option (String × List Char) :=
  match cs, cs.dropWhile isSchemeChar with
  | first :: _, ':' :: rest =>
    if first.isAlpha then
      some (String.ofList ((cs.takeWhile isSchemeChar).map Char.toLower), rest)
    else none
  | _, _ => none

/-! ### Paths -/

/-- The segments of the path in front of a query or fragment. -/
def segmentsOf (kind : Kind) (text : List Char) : List (List Char) :=
  let text := text.takeWhile fun c => !endsPath c
  if text.isEmpty && kind == .other then []
  else
    let text := match text with
      | c :: rest => if isSlash kind c then rest else c :: rest
      | [] => []
    readSegments (kind == .file) [] (splitWhere (isSlash kind) text)

/-- The segments without the empty ones in front; one of them stays if there are no others. -/
def withoutEmptyFront (segments : List (List Char)) : List (List Char) :=
  match segments.dropWhile List.isEmpty with
  | [] => [[]]
  | rest => rest

/-! ### Hosts and ports -/

/-- Split in front of the first colon outside brackets. -/
def splitHost (inside : Bool) : List Char → List Char × List Char
  | [] => ([], [])
  | c :: rest =>
    if c == ':' && !inside then ([], c :: rest)
    else
      let inside := if c == '[' then true else if c == ']' then false else inside
      let (host, rest) := splitHost inside rest
      (c :: host, rest)

/-- The port behind a host, unless it is the scheme's own, and what follows it. -/
def port? (scheme : String) : List Char → Option (Option Nat × List Char)
  | ':' :: cs =>
    let digits := cs.takeWhile Char.isDigit
    let n := natOfDecimal digits
    let rest := cs.dropWhile Char.isDigit
    -- in front of a backslash the port ends, although the schemes that are not of the web take
    -- the backslash for no slash
    if 65535 < n ∨ (rest ≠ [] ∧ rest.head? ≠ some '\\') then none
    else if digits.isEmpty ∨ defaultPort? scheme = some n then some (none, rest)
    else some (some n, rest)
  | cs => some (none, cs)

/-- The user in front of the last `@`, if there is one, and the text behind it. -/
def splitUser (cs : List Char) : Option (List Char) × List Char :=
  if '@' ∈ cs then
    (some (cs.reverse.dropWhile (· ≠ '@')).tail.reverse, (cs.reverse.takeWhile (· ≠ '@')).reverse)
  else (none, cs)

/-- A user without name and password may stand in front of an empty host, but not in front of an
empty host and a path. -/
def isUserRefused (user : Option (List Char)) (hostIsEmpty : Bool) (rest : List Char) : Bool :=
  hostIsEmpty &&
    match user with
    | none => false
    | some [] => !rest.isEmpty
    | some u => u != [':']

/-- The host that stands behind two slashes. -/
def host? (kind : Kind) (text : List Char) : Option (Option String) :=
  match kind with
  | .other => if text.isEmpty then some none else (anyHost? text).map some
  | _ => if text.isEmpty then none else (webHost? text).map some

/-- The location whose host, port and path follow two slashes. -/
def behindSlashes? (scheme : String) (text : List Char) : Option Url := do
  let kind := kindOf scheme
  let isEnd := fun c => isSlash kind c || endsPath c
  let (user, server) := splitUser (text.takeWhile fun c => !isEnd c)
  let rest := text.dropWhile fun c => !isEnd c
  let (hostText, portText) := splitHost false server
  if isUserRefused user hostText.isEmpty (portText ++ rest) then none
  else if hostText.isEmpty && portText.head? == some ':' then none
  else
    let host ← host? kind hostText
    let (port, behind) ← port? scheme portText
    return { scheme, host, port, path := .segments (segmentsOf kind (behind ++ rest)) }

/-! ### Files -/

/-- A host is not needed for the own machine, nor in front of a drive. -/
def fileLocation (host : Option String) (segments : List (List Char)) : Url :=
  let onDrive := ((segments.head?.bind drive?)).isSome
  { scheme := "file"
    host := if onDrive || host == some "localhost" then none else host
    path := .segments (withoutEmptyFront segments) }

/-- The location of a file, behind `file:`. -/
def file? (text : List Char) : Option Url :=
  let slash := isSlash .file
  let rooted := fun (text : List Char) =>
    readSegments true [] (splitWhere slash (text.takeWhile fun c => !endsPath c))
  match text with
  | a :: b :: rest =>
    if slash a && slash b then
      let hostText := rest.takeWhile fun c => !(slash c || endsPath c)
      let behind := rest.dropWhile fun c => !(slash c || endsPath c)
      -- a drive in the place of the host belongs to the path
      if (drive? hostText).isSome then some (fileLocation none (rooted rest))
      else if hostText.isEmpty then some (fileLocation none (rooted behind))
      else do
        let host ← webHost? hostText
        if host = "localhost" then return fileLocation none (rooted behind)
        else return fileLocation (some host) (segmentsOf .file behind)
    else some (fileLocation none (segmentsOf .file text))
  | _ => some (fileLocation none (segmentsOf .file text))

/-! ### Whole texts -/

/-- The location of a scheme whose text behind the colon is given. -/
def ofScheme? (scheme : String) (text : List Char) : Option Url :=
  match kindOf scheme with
  | .file => file? text
  -- any number of slashes will do, none as well
  | .web => behindSlashes? scheme (text.dropWhile (isSlash .web))
  | .other =>
    match text with
    | '/' :: '/' :: rest => behindSlashes? scheme rest
    | '/' :: _ => some { scheme, path := .segments (segmentsOf .other text) }
    | _ =>
      let text := percentEncode isPlain (text.takeWhile fun c => !endsPath c)
      some { scheme, path := .undivided text }

/-- A text without the controls and spaces around it and without tabs and line ends. -/
def clean (cs : List Char) : List Char :=
  let edge := fun c : Char => c.toNat ≤ 0x20
  (((cs.dropWhile edge).reverse.dropWhile edge).reverse).filter fun c =>
    !(c == '\t' || c == '\n' || c == '\r')

def parse? (text : String) : Option Url :=
  (scheme? (clean text.toList)).bind fun (scheme, rest) => ofScheme? scheme rest

/-- A reference without a scheme: two slashes start a host, and all else is a path there. -/
def ofReference? (cs : List Char) : Option Url :=
  let isSlash := isSlash .web
  match cs with
  | '/' :: '/' :: rest => behindSlashes? "http" rest
  | a :: b :: rest =>
    if isSlash a && isSlash b then behindSlashes? "http" (rest.dropWhile isSlash)
    else some (onLocalhost cs)
  | _ => some (onLocalhost cs)
where
  onLocalhost (cs : List Char) : Url :=
    { scheme := "http", host := some "localhost", path := .segments (segmentsOf .web cs) }

/-- The location that a text names, absolute or relative to `http://localhost/`. -/
def resolve? (text : String) : Option Url :=
  let cs := clean text.toList
  match scheme? cs with
  | some (scheme, rest) => ofScheme? scheme rest
  | none => ofReference? cs

/-! ### Views -/

def pathText (u : Url) : String :=
  match u.path with
  | .segments list => String.ofList (renderSegments list)
  | .undivided text => String.ofList text

def cannotBeABase (u : Url) : Bool :=
  match u.path with
  | .segments _ => false
  | .undivided _ => true

/-- The server of a web location. -/
def server? (u : Url) : Option String :=
  match kindOf u.scheme, u.host with
  | .web, some host =>
    some (u.scheme ++ "://" ++ host ++ (u.port.map fun n => ":" ++ toString n).getD "")
  | _, _ => none

/-- The server of a location, or of the one inside a `blob`; at most `n` of these are opened. -/
def originUpTo : Nat → Url → Option String
  | 0, u => u.server?
  | n + 1, u => if u.scheme = "blob" then (parse? u.pathText).bind (originUpTo n) else u.server?

/-- The server that a location comes from, `null` if it comes from none. -/
def origin (u : Url) : String := (originUpTo u.pathText.length u).getD "null"

end Url

end EndpointDocs
