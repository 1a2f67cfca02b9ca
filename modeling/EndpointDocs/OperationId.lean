import EndpointDocs.Method
import EndpointDocs.Text.Split

/-!
# Operation ids

The id of an operation is its method in small letters followed by the segments of its path, each
with a capital in front: `GET /v1/orders/{orderId}` is `getV1OrdersByOrderId`. A segment with
placeholders contributes `By` and the name for each of them and nothing else. Only ASCII letters
and digits are kept, so different paths may share an id.
-/

namespace EndpointDocs.OperationId

/-- The names of the placeholders of a segment: each `{` starts a name that goes to the next `}`;
`n` bounds the number of names. -/
def placeholdersUpTo : Nat → List Char → List (List Char)
  | 0, _ => []
  | n + 1, segment =>
    match segment.dropWhile (· ≠ '{') with
    | [] => []
    | _ :: after =>
      match after.dropWhile (· ≠ '}') with
      | [] => []
      | _ :: rest => after.takeWhile (· ≠ '}') :: placeholdersUpTo n rest

def placeholders (segment : List Char) : List (List Char) :=
  placeholdersUpTo segment.length segment

/-- The capital form of a character, as far as ASCII letters and digits go. Outside ASCII a few
letters have a capital form that is written with ASCII letters: `ß` is `SS` and `ﬁ` is `FI`. No
other character there gains an ASCII letter or digit by its capital form; these stay as they are. -/
def capital (c : Char) : List Char :=
  match c with
  | 'ß' => ['S', 'S']
  | 'ı' => ['I']
  | 'ŉ' => ['ʼ', 'N']
  | 'ſ' => ['S']
  | 'ǰ' => ['J', '\u030C']
  | 'ẖ' => ['H', '\u0331']
  | 'ẗ' => ['T', '\u0308']
  | 'ẘ' => ['W', '\u030A']
  | 'ẙ' => ['Y', '\u030A']
  | 'ẚ' => ['A', 'ʾ']
  | 'ﬀ' => ['F', 'F']
  | 'ﬁ' => ['F', 'I']
  | 'ﬂ' => ['F', 'L']
  | 'ﬃ' => ['F', 'F', 'I']
  | 'ﬄ' => ['F', 'F', 'L']
  | 'ﬅ' => ['S', 'T']
  | 'ﬆ' => ['S', 'T']
  | c => [c.toUpper]

/-- A name with its first character in capital form. -/
def titleCase : List Char → List Char
  | [] => []
  | c :: rest => capital c ++ rest

def ofSegment (segment : List Char) : List Char :=
  match placeholders segment with
  | [] => titleCase segment
  | names => names.flatMap fun name => 'B' :: 'y' :: titleCase name

def ofPath (path : List Char) : List Char :=
  ((Text.splitAt '/' path).filter fun segment => !segment.isEmpty).flatMap ofSegment

/-- The id of an operation; of all that it is made of only ASCII letters and digits are kept. -/
def generate (path : String) (method : Method) : String :=
  String.ofList ((method.key.toList ++ ofPath path.toList).filter Char.isAlphanum)

end EndpointDocs.OperationId
