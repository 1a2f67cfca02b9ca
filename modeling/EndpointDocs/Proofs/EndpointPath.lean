import EndpointDocs.Endpoint
import EndpointDocs.Proofs.Url.Reading

/-!
# Documented paths are returned as they stand

    origin ++ path ++ behind ──trim, clean──▶ ──Url──▶ encoded path ──percentDecode?──▶ path

The path of a unit comes back from its location character by character, with placeholders, spaces
and letters of any script (`path_of_documented`). It does not matter whether a server stands in
front of it and a query or fragment behind it: a reference and an absolute location read the same
segments. What a location gives another meaning must not occur in it (`IsDocumentedPath`).

Reading goes through three layers, and the path is followed through them from outside in: space
around the text, characters that a location drops, and the encoding of its segments.
-/

namespace EndpointDocs.Endpoint

open Text Url

/-- A path that a location does not read as something else: one slash in front, no escapes, no query
and no segments that lead back. The last character is not taken for space around the location; of
the control characters only those below the space count as such. -/
structure IsDocumentedPath (path : String) : Prop where
  rooted : path.toList.head? = some '/'
  second : ∀ c ∈ path.toList.tail.head?, c ≠ '/' ∧ c ≠ '\\'
  plain : ∀ c ∈ path.toList, c ∉ ['%', '?', '#', '\\', '\t', '\n', '\r']
  segments : ∀ s ∈ splitAt '/' path.toList, s ≠ ['.'] ∧ s ≠ ['.', '.']
  last : ∀ c ∈ path.toList.getLast?, isBlank c = false ∧ 0x20 ≤ c.toNat

/-- Nothing, or the server of a location on the web. -/
inductive IsOrigin : String → Prop where
  | none : IsOrigin ""
  | server {scheme host port : String} (web : scheme = "http" ∨ scheme = "https")
      (server : IsServer host.toList port.toList) : IsOrigin (scheme ++ "://" ++ host ++ port)

variable {origin path behind : String}

/-! ## The text around the path

Trimming and cleaning work at both ends of the text. In front it begins with a slash or a scheme, so
nothing is lost there; behind the path they may take something off the query or the fragment. -/

/-- What a location must not read is excluded, and more. -/
theorem IsDocumentedPath.isPlainPath (h : IsDocumentedPath path) : IsPlainPath path.toList where
  rooted := h.rooted
  plain c hc := by
    have := h.plain c hc
    simp_all
  segments := h.segments

/-- There is at least the slash. -/
theorem IsDocumentedPath.ne_nil (h : IsDocumentedPath path) : path.toList ≠ [] := by
  intro hnil
  have := h.rooted
  rw [hnil] at this
  cases this

/-- Neither space nor a control character ends the path. -/
theorem IsDocumentedPath.last_lt (h : IsDocumentedPath path) :
    ∀ c ∈ path.toList.getLast?, 0x20 < c.toNat := by
  intro c hc
  obtain ⟨hblank, hcontrol⟩ := h.last c hc
  have hspace : c.toNat ≠ 0x20 := by
    intro heq
    simp [isBlank, heq] at hblank
  omega

/-- Servers are written without the characters that are dropped. -/
theorem IsOrigin.not_dropped (h : IsOrigin origin) :
    ∀ c ∈ origin.toList, c ∉ ['\t', '\n', '\r'] := by
  intro c hc hdropped
  obtain - | @⟨scheme, host, port, web, hserver⟩ := h
  · cases hc
  · have houtside : c ∉ host.toList ++ port.toList :=
      hserver.not_mem (List.mem_of_mem_drop (i := 7) hdropped)
    have hfixed : ∀ d ∈ ['\t', '\n', '\r'], d ∉ "http".toList ∧ d ∉ "https".toList ∧
        d ∉ "://".toList := by
      decide
    obtain ⟨hhttp, hhttps, hmark⟩ := hfixed c hdropped
    rcases web with rfl | rfl
    · simp_all
    · simp_all

/-- What stands in front of a query: it has nothing to trim and nothing to clean. -/
structure IsFront (front : List Char) : Prop where
  ne_nil : front ≠ []
  head : ∀ c ∈ front.head?, isBlank c = false ∧ 0x20 < c.toNat
  last : ∀ c ∈ front.getLast?, isBlank c = false ∧ 0x20 < c.toNat
  plain : ∀ c ∈ front, c ∉ ['\t', '\n', '\r']

/-- The front begins with a letter or a slash and ends with the path. -/
theorem IsOrigin.isFront (horigin : IsOrigin origin) (hpath : IsDocumentedPath path) :
    IsFront (origin.toList ++ path.toList) where
  ne_nil := List.append_ne_nil_of_right_ne_nil _ hpath.ne_nil
  head := by
    intro c hc
    obtain - | ⟨rfl | rfl, -⟩ := horigin
    · obtain rfl : '/' = c := by simpa [hpath.rooted] using hc
      decide
    · obtain rfl : 'h' = c := by simpa using hc
      decide
    · obtain rfl : 'h' = c := by simpa using hc
      decide
  last := by
    intro c hc
    rw [List.getLast?_append, List.getLast?_eq_some_getLast hpath.ne_nil, Option.some_or,
      ← List.getLast?_eq_some_getLast] at hc
    exact ⟨(hpath.last c hc).1, hpath.last_lt c hc⟩
  plain := by
    intro c hc
    rcases List.mem_append.1 hc with horig | hpathMem
    · exact horigin.not_dropped c horig
    · have := hpath.plain c hpathMem
      simp_all

/-! ## The location

A reference and an absolute location meet in `segmentsOf`. What is behind the path is cut off there,
and what is left is encoded segment by segment, which decoding undoes. -/

/-- Both ways of writing the location lead to the segments of the path. -/
theorem exists_resolve? (horigin : IsOrigin origin) (hpath : IsDocumentedPath path) {text : String}
    {tail : List Char} (htext : text.toList = origin.toList ++ path.toList ++ tail)
    (htail : IsBehindPath tail) :
    ∃ u tail', resolve? text = some u ∧ IsBehindPath tail' ∧
      u.path = .segments (segmentsOf .web (path.toList ++ tail')) := by
  have hfront := horigin.isFront hpath
  obtain ⟨tail', hclean, htail'⟩ := exists_clean_append hfront.ne_nil
    (fun c hc => (hfront.head c hc).2) (fun c hc => (hfront.last c hc).2) hfront.plain htail
  rw [resolve?, htext, hclean]
  obtain - | @⟨scheme, host, port, web, hserver⟩ := horigin
  · -- without an origin the path is a reference, for a second slash would start a server
    have hsecond : path.toList.tail.head? ≠ some '/' := fun h => (hpath.second _ h).1 rfl
    obtain ⟨hscheme, href⟩ := ofReference?_append hpath.isPlainPath hsecond htail'
    simp only [String.toList_empty, List.nil_append, hscheme, href]
    exact ⟨_, tail', rfl, htail', rfl⟩
  · -- behind a server the path starts at its first slash
    have hslash : (path.toList ++ tail').head? = some '/' := by
      rw [List.head?_append, hpath.rooted, Option.some_or]
    obtain ⟨text, u, hscheme, hu, hsegments⟩ := ofScheme?_append web hserver hslash
    refine ⟨u, tail', ?_, htail', hsegments⟩
    -- the scheme is split off first, and what is behind it is host, port and path
    have hassoc : (scheme ++ "://" ++ host ++ port).toList ++ path.toList ++ tail' =
        scheme.toList ++ "://".toList ++
          (host.toList ++ port.toList ++ (path.toList ++ tail')) := by
      simp
    rw [hassoc, hscheme]
    exact hu

/-- The text of a location is trimmed behind its path only. -/
theorem exists_trim_append (horigin : IsOrigin origin) (hpath : IsDocumentedPath path)
    (hbehind : IsBehindPath behind.toList) :
    ∃ tail, (trim (origin ++ path ++ behind)).toList = origin.toList ++ path.toList ++ tail ∧
      IsBehindPath tail := by
  have hfront := horigin.isFront hpath
  obtain ⟨tail, htail, hsame⟩ := dropWhile_ends_append (p := isBlank) hfront.ne_nil
    (fun c hc => (hfront.head c hc).1) (fun c hc => (hfront.last c hc).1) (hbehind.head rfl rfl)
  refine ⟨tail, ?_, ?_⟩
  · rw [trim, String.toList_ofList, String.toList_append, String.toList_append]
    exact htail
  · rwa [IsBehindPath, hsame]

/-- The path of a unit is the one that its location spells, whatever is in front of it and behind
it. -/
theorem path_of_documented {unit url : Element} (hurl : unit.childrenNamed "url" = [url])
    (htext : url.text = some (origin ++ path ++ behind)) (horigin : IsOrigin origin)
    (hpath : IsDocumentedPath path) (hbehind : IsBehindPath behind.toList) :
    Endpoint.path unit = .ok path := by
  obtain ⟨tail, htrim, htail⟩ := exists_trim_append horigin hpath hbehind
  obtain ⟨u, tail', hresolve, htail', hsegments⟩ := exists_resolve? horigin hpath htrim htail
  have hown : url.ownText = trim (origin ++ path ++ behind) := by
    rw [Element.ownText, htext]
    rfl
  have hne : trim (origin ++ path ++ behind) ≠ "" := by
    intro hempty
    rw [hempty] at htrim
    exact hpath.ne_nil (List.append_eq_nil_iff.1 (List.append_eq_nil_iff.1 htrim.symm).1).2
  have hbase : u.cannotBeABase = false := by
    rw [cannotBeABase, hsegments]
  have hpathText : u.pathText.toList = percentEncode staysInPath path.toList := by
    rw [pathText, hsegments, String.toList_ofList]
    exact renderSegments_segmentsOf hpath.isPlainPath htail'
  -- the path has no percent sign, so all escapes are those of the encoding
  have hdecode : percentDecode? u.pathText.toList = some path.toList := by
    rw [hpathText]
    exact percentDecode?_percentEncode fun hmem => absurd (by decide) (hpath.plain '%' hmem)
  have hfound : pathOf? url.ownText = some path := by
    rw [hown, pathOf?, if_neg hne, hresolve]
    simp [hbase, hdecode]
  rw [Endpoint.path, hurl]
  simp only [hfound]

/-- A unit whose location has a server with a port, a path with a placeholder, a space and letters
outside ASCII, and a query. -/
def sizesUnit : Element :=
  { name := "member"
    children := [Element.ofText "url"
      "https://api.example.com:8443/größen/{id}/alle Maße/列表?page=1#top"] }

/-- The host is accepted as it stands. -/
theorem isServer_sizes : IsServer "api.example.com".toList ":8443".toList where
  named := by decide
  plain := by decide
  accepted := by
    rw [webHost?_eq_some (by decide) (by decide) (by decide +kernel) (by decide)]
    rfl
  numbered := .inr ⟨"8443".toList, rfl, by decide, by decide⟩

/-- Letters of any script are allowed, and so are braces and spaces. -/
theorem isDocumentedPath_sizes : IsDocumentedPath "/größen/{id}/alle Maße/列表" where
  rooted := by decide
  second := by decide
  plain := by decide
  segments := by decide
  last := by decide

/-- The path is the part between the port and the query. -/
theorem path_sizesUnit : Endpoint.path sizesUnit = .ok "/größen/{id}/alle Maße/列表" := by
  have htext : (Element.ofText "url"
      "https://api.example.com:8443/größen/{id}/alle Maße/列表?page=1#top").text =
      some ("https" ++ "://" ++ "api.example.com" ++ ":8443" ++ "/größen/{id}/alle Maße/列表" ++
        "?page=1#top") := by
    decide
  exact path_of_documented rfl htext (.server (.inr rfl) isServer_sizes) isDocumentedPath_sizes
    (by decide)

end EndpointDocs.Endpoint
