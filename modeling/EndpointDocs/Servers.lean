import EndpointDocs.Filter
import EndpointDocs.Url

/-!
# Servers

The servers of a document are the origins of its units, each once and in order of first appearance.
Relative locations have no origin.
-/

namespace EndpointDocs.Servers

/-- The origin of an absolute location with a host. -/
def originOf? (raw : String) : Option String := do
  let url ← Url.parse? raw
  if url.host.isSome then some url.origin else none

def originsOf (units : List Element) : List String :=
  (units.flatMap fun unit => (unit.childrenNamed "url").map Element.ownText).filterMap originOf?

def addServer (servers : List String) (origin : String) : List String :=
  if origin ∈ servers then servers else servers ++ [origin]

def serverFilter : DocumentFilter where
  name := "ServerFilter"
  apply _ _ units d := ({ d with servers := (originsOf units).foldl addServer d.servers }, [])

end EndpointDocs.Servers
