import EndpointDocs.Text.Percent
import EndpointDocs.Text.Split

/-!
# Paths of locations

A path is a list of segments. Reading one drops the segment `.`, lets `..` take back the segment
before it, and percent-encodes what may not stand in a path. The points may be written as `%2e`.

A segment that names a drive, such as `C:`, is never taken back.
-/

namespace EndpointDocs.Url

open Text

/-- Characters that stand in a path as they are. -/
def staysInPath (c : Char) : Bool :=
  0x20 < c.toNat && c.toNat < 0x7F && !"\"#<>?`\x7b\x7d".toList.contains c

/-- The number of points in a segment that consists of points. -/
def points? : List Char → Option Nat
  | [] => some 0
  | '.' :: rest => (points? rest).map (· + 1)
  | '%' :: '2' :: 'e' :: rest => (points? rest).map (· + 1)
  | '%' :: '2' :: 'E' :: rest => (points? rest).map (· + 1)
  | _ => none

/-- The letter of a segment that names a drive. -/
def drive? : List Char → Option Char
  | [c, ':'] | [c, '|'] => if c.isAlpha then some c else none
  | _ => none

/-- The segments in front without the last one, unless it names a drive. -/
def parent (segments : List (List Char)) : List (List Char) :=
  match segments.getLast? with
  | some s => if (drive? s).isSome then segments else segments.dropLast
  | none => []

/-- A segment as it is kept. In a path of files the first one may name a drive. -/
def kept (files : Bool) (front : List (List Char)) (segment : List Char) : List Char :=
  match files && front.isEmpty, drive? segment with
  | true, some letter => [letter, ':']
  | _, _ => percentEncode staysInPath segment

/-- Read segments behind those in front; behind points at the end stands an empty segment. -/
def readSegments (files : Bool) (front : List (List Char)) :
    List (List Char) → List (List Char)
  | [] => front
  | s :: rest =>
    let shorter := match points? s with
      | some 1 => some front
      | some 2 => some (parent front)
      | _ => none
    -- a path that ends in points ends in a slash
    match shorter with
    | some front => readSegments files (if rest.isEmpty then front ++ [[]] else front) rest
    | none => readSegments files (front ++ [kept files front s]) rest

def renderSegments (segments : List (List Char)) : List Char :=
  segments.flatMap fun s => '/' :: s

end EndpointDocs.Url
