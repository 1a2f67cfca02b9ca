import EndpointDocs.Proofs.Url.Parts
import EndpointDocs.Proofs.Variant
import EndpointDocs.Servers

/-!
# The servers of a document

    texts ──hosted──▶ absolute locations with a host ──origin──▶ ──eraseDups──▶ servers

A document without servers gets the origins of its units, each once and in order of first
appearance. The origin of a location with a host is its server if the location is one of the web,
and else `null`. So the servers are those that the absolute locations name exactly if the locations
with a host are all of the web (`servers_of_units`).
-/

namespace EndpointDocs

/-! ## Origins -/

namespace Url

variable {u : Url} {raw : String}

/-- Scheme, host and port of a location with a host. -/
def serverText? (u : Url) : Option String :=
  u.host.map fun host =>
    u.scheme ++ "://" ++ host ++ (u.port.map fun n => ":" ++ toString n).getD ""

theorem server?_eq (u : Url) :
    u.server? = if kindOf u.scheme = .web then u.serverText? else none := by
  unfold server? serverText?
  cases u.host with
  | none => cases kindOf u.scheme <;> rfl
  | some host => cases kindOf u.scheme <;> rfl

theorem ne_null_of_serverText? {server : String} (h : u.serverText? = some server) :
    server ≠ "null" := by
  obtain ⟨host, -, rfl⟩ := Option.map_eq_some_iff.1 h
  intro hnull
  have hcolon := congrArg (fun text => decide (':' ∈ text.toList)) hnull
  simp at hcolon

/-- A path with segments is no absolute location. -/
theorem parse?_pathText {list : List (List Char)} (h : u.path = .segments list) :
    parse? u.pathText = none := by
  have hscheme : scheme? (clean u.pathText.toList) = none := by
    refine scheme?_clean_eq_none fun c hc => ?_
    rw [pathText, h] at hc
    dsimp only at hc
    rw [String.toList_ofList] at hc
    by_cases hlist : list = []
    · rw [hlist] at hc
      cases hc
    · rw [head?_renderSegments hlist] at hc
      exact (Option.some.inj hc).symm
  rw [parse?, hscheme]
  rfl

/-- The origin of a location with a host is its server, also if the scheme is `blob`. -/
theorem origin_eq (h : resolve? raw = some u) (hhost : u.host.isSome) :
    u.origin = u.server?.getD "null" := by
  obtain ⟨list, hpath⟩ : ∃ list, u.path = .segments list := by
    -- a location with a host has segments
    rcases resolve?_eq_some h with ⟨hnone, -⟩ | ⟨list, hpath, -⟩
    · rw [hnone] at hhost
      cases hhost
    · exact ⟨list, hpath⟩
  have hserver : ∀ n, originUpTo n u = u.server? := by
    intro n
    cases n with
    | zero => rfl
    | succ n =>
      rw [originUpTo]
      split
      · -- segments begin with a slash, so a `blob` location has no other one inside
        next hblob =>
        rw [parse?_pathText hpath, server?_eq, hblob, if_neg (by decide)]
        rfl
      · rfl
  rw [origin, hserver]

/-- A text with a scheme. -/
def IsAbsolute (raw : String) : Prop := (scheme? (clean raw.toList)).isSome

instance : DecidablePred IsAbsolute := fun raw =>
  inferInstanceAs (Decidable ((scheme? (clean raw.toList)).isSome = true))

theorem parse?_eq (raw : String) : parse? raw = if IsAbsolute raw then resolve? raw else none := by
  by_cases habsolute : IsAbsolute raw
  · obtain ⟨found, hfound⟩ := Option.isSome_iff_exists.1 habsolute
    rw [if_pos habsolute, parse?, resolve?, hfound]
    rfl
  · rw [if_neg habsolute, parse?, Option.not_isSome_iff_eq_none.1 habsolute]
    rfl

end Url

namespace Servers

open Url

variable {units : List Element}

/-- The location that a text names if it is absolute and has a host. -/
def hosted? (raw : String) : Option Url :=
  if IsAbsolute raw then (resolve? raw).filter (·.host.isSome) else none

/-- The absolute locations with a host among those of the units. -/
def hosted (units : List Element) : List Url :=
  (units.flatMap fun unit => (unit.childrenNamed "url").map Element.ownText).filterMap hosted?

theorem originOf?_eq (raw : String) : originOf? raw = (hosted? raw).map Url.origin := by
  unfold originOf? hosted?
  rw [parse?_eq]
  split
  · cases resolve? raw with
    | none => rfl
    | some u => cases hhost : u.host.isSome <;> simp [Option.filter, hhost]
  · rfl

theorem originsOf_eq (units : List Element) : originsOf units = (hosted units).map Url.origin := by
  rw [originsOf, hosted, List.map_filterMap]
  exact List.filterMap_congr fun raw _ => originOf?_eq raw

theorem origin_of_mem_hosted {u : Url} (h : u ∈ hosted units) :
    if kindOf u.scheme = .web then u.serverText? = some u.origin else u.origin = "null" := by
  obtain ⟨raw, -, hraw⟩ := List.mem_filterMap.1 h
  obtain ⟨-, hfound⟩ := Option.ite_none_right_eq_some.1 hraw
  obtain ⟨hresolve, hhost⟩ := Option.filter_eq_some_iff.1 hfound
  rw [origin_eq hresolve hhost, server?_eq]
  split
  · obtain ⟨host, hhost⟩ := Option.isSome_iff_exists.1 hhost
    rw [serverText?, hhost]
    rfl
  · rfl

/-! ## Adding servers -/

/-- Origins are added behind the known servers, each once. The induction is on the origins; a new
one is known to those behind it. -/
theorem foldl_addServer (origins known : List String) : origins.foldl addServer known =
    known ++ (origins.filter fun origin => origin ∉ known).eraseDups := by
  induction origins generalizing known with
  | nil => simp
  | cons origin rest ih =>
    rw [List.foldl_cons, ih, addServer]
    by_cases hknown : origin ∈ known
    · rw [if_pos hknown, List.filter_cons_of_neg (by simpa using hknown)]
    · rw [if_neg hknown, List.filter_cons_of_pos (by simpa using hknown), List.eraseDups_cons,
        List.filter_filter, List.append_assoc, List.singleton_append]
      congr 3
      refine List.filter_congr fun other _ => ?_
      simp [and_comm, Bool.beq_eq_decide_eq]

/-- The servers that the absolute locations with a host name. -/
def namedServers (units : List Element) : List String := (hosted units).filterMap serverText?

theorem eraseDups_originsOf_iff : (originsOf units).eraseDups = (namedServers units).eraseDups ↔
    ∀ u ∈ hosted units, kindOf u.scheme = .web := by
  rw [originsOf_eq]
  constructor
  · intro hsame u hu
    by_contra hother
    have horigin := origin_of_mem_hosted hu
    rw [if_neg hother] at horigin
    -- the origin `null` is among the servers, but no location names it
    have hnull : "null" ∈ (hosted units).map Url.origin := List.mem_map.2 ⟨u, hu, horigin⟩
    rw [← List.mem_eraseDups, hsame, List.mem_eraseDups] at hnull
    obtain ⟨v, -, hserver⟩ := List.mem_filterMap.1 hnull
    exact ne_null_of_serverText? hserver rfl
  · intro hweb
    have horigins : (hosted units).map Url.origin = namedServers units := by
      rw [← List.filterMap_eq_map]
      refine List.filterMap_congr fun u hu => ?_
      have horigin := origin_of_mem_hosted hu
      rw [if_pos (hweb u hu)] at horigin
      exact horigin.symm
    rw [horigins]

/-- A document without servers gets those that the absolute locations with a host name, each once
and in order of first appearance, exactly if these locations are all of the web. -/
theorem servers_of_units (settings : Settings) (variant : Variant) (units : List Element)
    {d : Document} (h : d.servers = []) :
    (serverFilter.apply settings variant units d).1.servers.Nodup ∧
      ((serverFilter.apply settings variant units d).1.servers = (namedServers units).eraseDups ↔
        ∀ u ∈ hosted units, kindOf u.scheme = .web) := by
  have hservers : (serverFilter.apply settings variant units d).1.servers =
      (originsOf units).foldl addServer [] := by rw [← h]; rfl
  rw [hservers]
  refine ⟨nodup_foldl_addNew List.nodup_nil, ?_⟩
  rw [foldl_addServer, List.nil_append]
  simpa using eraseDups_originsOf_iff

/-- Units of which only the locations are given. -/
def unitsAt (texts : List String) : List Element :=
  texts.map fun text => ⟨"operation", ∅, [Element.ofText "url" text], none⟩

/-- A port, a relative location, the scheme's own port, a server that comes twice, and an absolute
location without a host. -/
def mixedUnits : List Element :=
  unitsAt ["https://api:8443/a", "/b", "http://www:80/c", "https://api:8443/d", "mailto:staff"]

theorem hosted_mixedUnits : hosted mixedUnits =
    [⟨"https", some "api", some 8443, .segments [['a']]⟩,
      ⟨"http", some "www", none, .segments [['c']]⟩,
      ⟨"https", some "api", some 8443, .segments [['d']]⟩] := by decide +kernel

theorem servers_mixedUnits : (serverFilter.apply {} .default mixedUnits {}).1.servers =
    ["https://api:8443", "http://www"] := by
  have hweb : ∀ u ∈ hosted mixedUnits, kindOf u.scheme = .web := by
    rw [hosted_mixedUnits]
    decide
  have hnamed : (namedServers mixedUnits).eraseDups = ["https://api:8443", "http://www"] := by
    rw [namedServers, hosted_mixedUnits]
    decide
  rw [← hnamed]
  exact (servers_of_units {} .default mixedUnits (d := {}) rfl).2.2 hweb

theorem servers_null : (serverFilter.apply {} .default (unitsAt ["foo://host/x"]) {}).1.servers =
    ["null"] ∧ namedServers (unitsAt ["foo://host/x"]) = ["foo://host"] := by
  exact ⟨by decide +kernel, by decide +kernel⟩

end Servers

end EndpointDocs
