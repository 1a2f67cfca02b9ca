import EndpointDocs.Url.Address
import EndpointDocs.Url.DomainName

/-!
# Hosts

The host of an address on the web is a domain name or a numeric address; it is kept in the form in
which it is written out. Where the scheme says nothing about hosts, any text without separators is
one.

Numeric addresses, hosts of unknown schemes and domain names all in ASCII without an `xn--` label
have the form of the standard; `Url.DomainName` says for which other names it is the standard one.
-/

namespace EndpointDocs.Url

open Text

/-- The numeric address in brackets, if the text starts with one. -/
def bracketed? : List Char → Option (List Char)
  | '[' :: cs => if cs.getLast? = some ']' then some cs.dropLast else none
  | _ => none

/-- The host that a text in brackets stands for. -/
def bracketedHost? (cs : List Char) : Option String := do
  let groups ← address6? (← bracketed? cs)
  return "[" ++ renderAddress6 groups ++ "]"

def webHost? (cs : List Char) : Option String :=
  if cs.head? = some '[' then bracketedHost? cs
  else do
    let name ← DomainName.ascii? (← percentDecode? cs)
    if name.isEmpty then none
    else if endsInNumber name then (address4? name).map renderAddress4
    else some (String.ofList name)

/-- Characters that separate the parts of a location, and so stand in no host. -/
def separatesHost (c : Char) : Bool :=
  c.toNat == 0 || "\t\n\r #/:<>?@[\\]^|".toList.contains c

/-- ASCII characters that are no controls. -/
def isPlain (c : Char) : Bool := 0x20 ≤ c.toNat && c.toNat < 0x7F

/-- The host of a location whose scheme is not known. -/
def anyHost? (cs : List Char) : Option String :=
  if cs.head? = some '[' then bracketedHost? cs
  else if cs.any separatesHost then none
  else some (String.ofList (percentEncode isPlain cs))

end EndpointDocs.Url
