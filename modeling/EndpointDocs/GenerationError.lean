import EndpointDocs.Method
import EndpointDocs.Registry

/-!
# Errors

Everything that can keep a unit, or a whole run, out of the documents. An error is *fatal* if the
filters behind the one that found it are skipped.
-/

namespace EndpointDocs

/-- What a filter finds wrong with an annotation. -/
inductive Fault where
  | parameterWithoutName
  | unknownLocation (name location : String)
  | invalidResponseCode (code : String)
  | operationRemoved (method : Method) (path : String)
  /-- A fault of a filter that is not built in. -/
  | custom (text : String)
deriving DecidableEq, Repr

def Fault.message : Fault → String
  | parameterWithoutName => "param without a name"
  | unknownLocation name location =>
    "param '" ++ name ++ "' has unknown location '" ++ location ++ "'"
  | invalidResponseCode code => "invalid response code '" ++ code ++ "'"
  | operationRemoved method path =>
    "operation " ++ method.name ++ " " ++ path ++ " removed by a config filter"
  | custom text => text

inductive GenerationError where
  /-- The unit has not exactly one `url` that has a path. -/
  | invalidPath (raw : String)
  /-- The unit's `verb` is no method. -/
  | invalidMethod (raw path : String)
  /-- A body names no type. -/
  | missingType (tag name : String)
  | unresolved (error : ResolutionError)
  /-- A filter refused a part of the annotation. -/
  | fault (filter : String) (fault : Fault)
  /-- An earlier unit has the same path and method. -/
  | duplicateOperation (method : Method) (path : String) (variant : Variant)
  /-- The documents could not be finished. -/
  | documentStage (errors : List GenerationError)
deriving Repr, Inhabited

/-- The kinds of errors that outcomes tell apart. -/
inductive ErrorKind where
  | invalidPath | invalidMethod | missingTypeReference | schemaResolution | filterFault
  | duplicateOperation | documentStageFault
deriving DecidableEq, Repr

def ErrorKind.name : ErrorKind → String
  | invalidPath => "InvalidPath"
  | invalidMethod => "InvalidMethod"
  | missingTypeReference => "MissingTypeReference"
  | schemaResolution => "SchemaResolutionError"
  | filterFault => "FilterFault"
  | duplicateOperation => "DuplicateOperation"
  | documentStageFault => "DocumentStageFault"

namespace GenerationError

def kind : GenerationError → ErrorKind
  | invalidPath _ => .invalidPath
  | invalidMethod .. => .invalidMethod
  | missingType .. => .missingTypeReference
  | unresolved _ => .schemaResolution
  | fault .. => .filterFault
  | duplicateOperation .. => .duplicateOperation
  | documentStage _ => .documentStageFault

mutual

def message : GenerationError → String
  | invalidPath raw => "invalid path '" ++ raw ++ "'"
  | invalidMethod raw path => "invalid method '" ++ raw ++ "' for path '" ++ path ++ "'"
  | missingType tag name => tag ++ " '" ++ name ++ "' does not reference a type"
  | unresolved e => e.message
  | fault filter f => filter ++ ": " ++ f.message
  | duplicateOperation method path variant =>
    "duplicate operation " ++ method.name ++ " " ++ path ++
      " in document '" ++ variant.display ++ "'"
  | documentStage errors => "document stage failed: " ++ "; ".intercalate (messages errors)

def messages : List GenerationError → List String
  | [] => []
  | e :: rest => message e :: messages rest

end

/-- Types that are missing or cannot be resolved stop the work on an operation. -/
def isFatal : GenerationError → Bool
  | missingType .. | unresolved _ => true
  | _ => false

end GenerationError

end EndpointDocs
