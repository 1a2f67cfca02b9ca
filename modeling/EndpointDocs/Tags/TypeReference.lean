import EndpointDocs.Filter

/-!
# Types that a tag refers to

A tag names types by its own `cref` attribute and by those of its `see` children. Several types are
alternatives of one schema.
-/

namespace EndpointDocs.Tags

def typeTexts (tag : Element) : List String :=
  let own := (tag.trimmedAttribute? "cref").toList
  let others := (tag.childrenNamed "see").filterMap (·.trimmedAttribute? "cref")
  (own ++ others).filter (· ≠ "")

def schemaOfText (scope : Scope) (source : String) :
    Resolving (Except ResolutionError Schema) :=
  match Source.typeExpr? source with
  | some t => Registry.resolve scope.resolver scope.depth t scope.variant
  | none => return .error ⟨source, .notATypeExpression source⟩

/-- Widen what is known so far by the schemas of more type expressions. -/
def widenByTexts (scope : Scope) :
    List String → Option Schema → Resolving (Except ResolutionError (Option Schema))
  | [], known => return .ok known
  | source :: rest, known => do
    match ← schemaOfText scope source with
    | .error e => return .error e
    | .ok s => widenByTexts scope rest (some ((known.map (·.widen s)).getD s))

/-- The schema of the types that a tag refers to; none if there are no types. -/
def schemaOf (scope : Scope) (tag : Element) :
    Resolving (Except ResolutionError (Option Schema)) :=
  widenByTexts scope (typeTexts tag) none

end EndpointDocs.Tags
