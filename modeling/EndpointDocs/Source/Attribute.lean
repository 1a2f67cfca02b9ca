import EndpointDocs.Source.Reader

/-!
# Attributes

An attribute is a path with nothing behind it, with a group of tokens, or with `=` and an
expression. `items` walks the list of an attribute such as `#[serde(rename = "id", skip)]`: it
stops at the first item that has no proper form, and what stands before it counts.
-/

namespace EndpointDocs.Source

/-- A path of words without arguments. One from the root has an empty word in front. -/
def plainPath : Reader (List String) := do
  let rooted ← mark? "::"
  expect atPathWord
  let first ← anyWord
  let rest ← repeated do
    if ← mark? "::" then
      expect atPathWord
      return some (← anyWord)
    else return none
  return if rooted then "" :: first :: rest else first :: rest

namespace Attribute

/-- The value behind `=`: a text, or some other expression. -/
def assigned (g : Grammar) : Reader (Option String) := do
  match ← get with
  | [.literal (.text s)] => set ([] : List Token); return some s
  | ts =>
    if atMark "#" ts && atGroup .brackets (ts.drop 1) then failure
    else let _ ← g (.expression true); return none

/-- What stands between the brackets of an attribute. -/
def body (g : Grammar) : Reader Attribute := do
  let path ← if ← word? "unsafe" then pure ["unsafe"] else plainPath
  match ← get with
  | .group _ arguments :: rest => set rest; return ⟨path, some arguments, none⟩
  | _ =>
    if ← mark? "=" then return ⟨path, none, ← assigned g⟩
    else return ⟨path, none, none⟩

def outer (g : Grammar) : Reader (List Attribute) :=
  manyWhile (atMark "#") do mark "#"; group .brackets (body g)

def inner (g : Grammar) : Reader (List Attribute) :=
  manyWhile (fun ts => atMark "#" ts && atMark "!" (ts.drop 1)) do
    skip 2; group .brackets (body g)

/-- Whether the attribute's path is the one given word. -/
def named (a : Attribute) (name : String) : Bool := a.path == [name]

/-! ### Lists of settings -/

/-- The path of a setting; any word will do, keywords too. -/
def settingPath : Reader (Option String) := do
  let leading ← mark? "::"
  expect atAnyWord
  let first ← anyWord
  let rest ← repeated do
    if ← mark? "::" then expect atAnyWord; return some (← anyWord) else return none
  return if leading || !rest.isEmpty then none else some first

/-- A setting inside the parentheses of another one. -/
def innerSetting (g : Grammar) : Reader Unit := do
  let _ ← settingPath
  if ← mark? "=" then let _ ← g (.expression true)

/-- The settings in parentheses behind the path of another one. There has to be one at least. -/
def innerSettings (g : Grammar) : Reader Unit := group .parens do
  if (← commas (innerSetting g)).isEmpty then failure

/-- One setting behind its path: what it makes of the naming, and whether it has a proper form. -/
def setting (g : Grammar) (name : Option String) (naming : Naming) (ts : List Token) :
    Naming × Option (List Token) :=
  if name = some "rename" && atMark "=" ts then
    match (do mark "="; textLiteral : Reader String) ts with
    | some (s, rest) => ({ naming with renamed := some s }, some rest)
    | none => (naming, none)
  else if name = some "skip" then ({ naming with skipped := true }, some ts)
  else if atMark "=" ts then
    (naming, ((do mark "="; let _ ← g (.expression true) : Reader Unit) ts).map Prod.snd)
  else if atGroup .parens ts then (naming, (innerSettings g ts).map Prod.snd)
  else (naming, some ts)

/-- The settings of a list from its start; `n` bounds their number. -/
def settings (g : Grammar) : Nat → Naming → List Token → Naming
  | 0, naming, _ => naming
  | n + 1, naming, ts =>
    match settingPath ts with
    | none => naming
    | some (name, ts) =>
      match setting g name naming ts with
      | (naming, some (.mark ',' _ :: rest)) =>
        if rest.isEmpty then naming else settings g n naming rest
      | (naming, _) => naming

/-- The naming that the `serde` attributes of a field or variant set. -/
def naming (g : Grammar) (attributes : List Attribute) : Naming :=
  (attributes.filter (·.named "serde")).foldl (fun naming a =>
    match a.arguments with
    | some ts => settings g (ts.length + 1) naming ts
    | none => naming) {}

/-- The documentation that attributes give: its lines without white space around them, those that
are not blank joined by spaces. -/
def description (attributes : List Attribute) : Option String :=
  let lines := (attributes.filter (·.named "doc")).filterMap fun a => a.value.map Text.trim
  match lines.filter (· ≠ "") with
  | [] => none
  | lines => some (" ".intercalate lines)

end Attribute

end EndpointDocs.Source
