import EndpointDocs.Element.Json
import EndpointDocs.Yaml.Node
import EndpointDocs.Yaml.Scalar

/-!
# Element trees as YAML

An element is a mapping with the fields that the object of its JSON form has. Where a text is
expected every scalar counts as it is written; a plain null, or nothing at all, stands for an absent
text, and for an empty list or map.
-/

namespace EndpointDocs.Element

open Yaml

/-- How deep the mappings and sequences of an element may nest. -/
def maxYamlDepth : Nat := 128

def stringOfNode? : Node → Option String
  | .scalar _ _ text => some text
  | _ => none

/-- A scalar that is left out. -/
def isOmitted : Node → Bool
  | .scalar true _ text => text == ""
  | _ => false

def textOfNode? : Node → Option (Option String)
  | .scalar true none text => some (if isNull text.toList then none else some text)
  | .scalar true (some tag) text =>
    if tag = "tag:yaml.org,2002:null" then
      (if isNull text.toList && text != "" then some none else none)
    else some (some text)
  | .scalar false _ text => some (some text)
  | _ => none

/-- A map from texts to texts inside `depth` mappings and sequences. -/
def attributesOfNode? (depth : Nat) (node : Node) : Option (KeyMap String String) :=
  match node with
  | .mapping fields =>
    if depth < maxYamlDepth then
      (fields.mapM fun (p : Node × Node) => do
        return ((← stringOfNode? p.1), (← stringOfNode? p.2))).map KeyMap.ofList
    else none
  | node => if isOmitted node then some ∅ else none

mutual

/-- The element that a node inside `depth` mappings and sequences stands for. -/
def ofNodeAt? (depth : Nat) : Node → Option Element
  | .mapping fields =>
    if depth < maxYamlDepth then (partsOfFields? (depth + 1) fields {}).bind Parts.element?
    else none
  | _ => none

/-- Read fields in any order into the parts. -/
def partsOfFields? (depth : Nat) : List (Node × Node) → Parts → Option Parts
  | [], p => some p
  | (key, v) :: rest, p =>
    match stringOfNode? key with
    | none => none
    | some key =>
      if key = "name" then ((stringOfNode? v).bind p.setName).bind (partsOfFields? depth rest)
      else if key = "attributes" then
        ((attributesOfNode? depth v).bind p.setAttributes).bind (partsOfFields? depth rest)
      else if key = "children" then
        ((childrenOfNode? depth v).bind p.setChildren).bind (partsOfFields? depth rest)
      else if key = "text" then ((textOfNode? v).bind p.setText).bind (partsOfFields? depth rest)
      else partsOfFields? depth rest p

def childrenOfNode? (depth : Nat) : Node → Option (List Element)
  | .sequence items => if depth < maxYamlDepth then elementsOfNodes? (depth + 1) items else none
  | node => if isOmitted node then some [] else none

def elementsOfNodes? (depth : Nat) : List Node → Option (List Element)
  | [] => some []
  | v :: rest => do return (← ofNodeAt? depth v) :: (← elementsOfNodes? depth rest)

end

def readYaml? (text : String) : Option Element := (Node.read? text).bind (ofNodeAt? 0)

end EndpointDocs.Element
