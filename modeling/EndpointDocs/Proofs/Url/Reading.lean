import EndpointDocs.Proofs.Text.Cutting
import EndpointDocs.Proofs.Text.Percent
import EndpointDocs.Url

/-!
# Reading locations without escapes

    server ++ path ++ behind ──clean──▶ server ++ path ++ behind' ──▶ scheme, host, port, segments

What a location of the web reads from a text whose server and path are plain: the server is cut off
in front of the first slash of the path (`behindSlashes?_append`), the path in front of a query or
fragment, and its segments, written out, are the encoded path (`renderSegments_segmentsOf`). A path
is plain (`IsPlainPath`) if nothing in it separates, escapes or takes segments back.

Nothing is said of texts with escapes or of hosts in other scripts. The lemmas are about the parts
of one text, from the path behind the server to the characters of the host, and the last section
puts them together for a whole text, with a scheme or without.
-/

namespace EndpointDocs.Url

open Text

variable {cs path behind : List Char}

/-- A query, a fragment, or nothing. -/
def IsBehindPath (behind : List Char) : Prop := ∀ c ∈ behind.head?, c = '?' ∨ c = '#'

instance (behind : List Char) : Decidable (IsBehindPath behind) :=
  decidableForallMemChar? behind.head?

/-- What holds of both marks holds of the first character behind a path. -/
theorem IsBehindPath.head {p : Char → Bool} {b : Bool} (h : IsBehindPath behind)
    (hquery : p '?' = b) (hfragment : p '#' = b) : ∀ c ∈ behind.head?, p c = b := by
  intro c hc
  rcases h c hc with rfl | rfl
  · exact hquery
  · exact hfragment

/-! ## Segments

A path is read by cutting it at slashes and taking points back. Without points nothing is taken
back, so that writing the segments out again gives the path: cutting and joining cancel, and
encoding a segment is encoding its characters. -/

/-- Only points count as points when nothing is escaped. -/
theorem points?_eq_replicate {n : Nat} (hpercent : '%' ∉ cs) (h : points? cs = some n) :
    cs = List.replicate n '.' := by
  induction cs using points?.induct generalizing n with
  | case1 =>
    cases h
    rfl
  | case2 rest ih =>
    rw [points?] at h
    obtain ⟨k, hk, rfl⟩ := Option.map_eq_some_iff.1 h
    rw [List.replicate_succ, ← ih (mt (List.mem_cons_of_mem _) hpercent) hk]
  | case3 rest => exact absurd List.mem_cons_self hpercent
  | case4 rest => exact absurd List.mem_cons_self hpercent
  | case5 cs h1 h2 h3 h4 =>
    rw [points?] at h
    · cases h
    all_goals assumption

/-- Segments that are no points are kept, each in its encoded form. -/
theorem readSegments_eq_map {segments : List (List Char)} (front : List (List Char))
    (h : ∀ s ∈ segments, points? s ≠ some 1 ∧ points? s ≠ some 2) :
    readSegments false front segments = front ++ segments.map (percentEncode staysInPath) := by
  induction segments generalizing front with
  | nil => simp [readSegments]
  | cons s rest ih =>
    obtain ⟨hs, hrest⟩ := List.forall_mem_cons.1 h
    rw [readSegments]
    split
    · next front' hshorter =>
      split at hshorter
      · next hone => exact absurd hone hs.1
      · next htwo => exact absurd htwo hs.2
      · cases hshorter
    · rw [ih _ hrest]
      simp [kept]

theorem staysInPath_slash : staysInPath '/' = true := by
  simp [staysInPath]

theorem percentEncode_append (keep : Char → Bool) (cs ds : List Char) :
    percentEncode keep (cs ++ ds) = percentEncode keep cs ++ percentEncode keep ds :=
  List.flatMap_append

/-- A slash in front of each segment is one slash more than between them. -/
theorem renderSegments_eq_joinWith {segments : List (List Char)} (h : segments ≠ []) :
    renderSegments segments = '/' :: joinWith '/' segments := by
  induction segments with
  | nil => exact absurd rfl h
  | cons s rest ih =>
    cases rest with
    | nil => simp [renderSegments, joinWith]
    | cons t rest =>
      calc renderSegments (s :: t :: rest)
          = '/' :: s ++ renderSegments (t :: rest) := List.flatMap_cons
        _ = '/' :: s ++ '/' :: joinWith '/' (t :: rest) := by rw [ih (List.cons_ne_nil t rest)]
        _ = '/' :: joinWith '/' (s :: t :: rest) := rfl

/-- Encoding the pieces is encoding the whole, if the separator is kept. -/
theorem joinWith_map_percentEncode {keep : Char → Bool} {sep : Char} (hsep : keep sep = true)
    (pieces : List (List Char)) :
    joinWith sep (pieces.map (percentEncode keep)) = percentEncode keep (joinWith sep pieces) := by
  induction pieces with
  | nil => rfl
  | cons s rest ih =>
    cases rest with
    | nil => rfl
    | cons t rest =>
      rw [List.map_cons] at ih
      rw [List.map_cons, List.map_cons, joinWith_cons_cons, ih, joinWith_cons_cons,
        percentEncode_append, percentEncode_cons, if_pos hsep, List.singleton_append]

/-- A path that is read as it stands: rooted, without the characters that end a path, separate
otherwise or escape, and without segments that lead back. -/
structure IsPlainPath (path : List Char) : Prop where
  rooted : path.head? = some '/'
  plain : ∀ c ∈ path, c ∉ ['%', '?', '#', '\\']
  segments : ∀ s ∈ splitAt '/' path, s ≠ ['.'] ∧ s ≠ ['.', '.']

namespace IsPlainPath

theorem exists_eq_cons (h : IsPlainPath path) : ∃ rest, path = '/' :: rest := by
  cases path with
  | nil => cases h.rooted
  | cons c rest =>
    cases h.rooted
    exact ⟨rest, rfl⟩

theorem not_mem (h : IsPlainPath path) {c : Char} (hc : c ∈ ['%', '?', '#', '\\']) : c ∉ path :=
  fun hmem => h.plain c hmem hc

theorem not_endsPath (h : IsPlainPath path) : ∀ c ∈ path, (!endsPath c) = true := by
  intro c hc
  have := h.plain c hc
  simp_all [endsPath]

theorem isSlash_eq (h : IsPlainPath path) (kind : Kind) :
    ∀ c ∈ path, isSlash kind c = (c == '/') := by
  intro c hc
  have := h.plain c hc
  simp_all [isSlash]

theorem points?_ne (h : IsPlainPath path) {s : List Char} (hs : s ∈ splitAt '/' path) :
    points? s ≠ some 1 ∧ points? s ≠ some 2 := by
  have hpercent : '%' ∉ s := fun hmem =>
    h.not_mem List.mem_cons_self (mem_of_mem_splitAt hs hmem)
  constructor
  -- a segment of one or two points would be one of those that are excluded
  · intro hone
    exact (h.segments s hs).1 (points?_eq_replicate hpercent hone)
  · intro htwo
    exact (h.segments s hs).2 (points?_eq_replicate hpercent htwo)

end IsPlainPath

/-- The segments of a plain path, written out, are the encoded path. -/
theorem renderSegments_segmentsOf (hpath : IsPlainPath path) (hbehind : IsBehindPath behind) :
    renderSegments (segmentsOf .web (path ++ behind)) = percentEncode staysInPath path := by
  obtain ⟨rest, rfl⟩ := hpath.exists_eq_cons
  -- the path ends where the query or the fragment starts
  have hcut : (('/' :: rest) ++ behind).takeWhile (fun c => !endsPath c) = '/' :: rest :=
    (takeWhile_dropWhile_append hpath.not_endsPath (hbehind.head rfl rfl)).1
  have hpieces : splitWhere (isSlash .web) rest = splitAt '/' rest :=
    splitWhere_congr fun c hc => hpath.isSlash_eq .web c (List.mem_cons_of_mem _ hc)
  have hpoints : ∀ s ∈ splitAt '/' rest, points? s ≠ some 1 ∧ points? s ≠ some 2 :=
    fun s hs => hpath.points?_ne (List.mem_cons_of_mem [] hs)
  have hread : segmentsOf .web (('/' :: rest) ++ behind) =
      (splitAt '/' rest).map (percentEncode staysInPath) := by
    rw [segmentsOf, hcut]
    show readSegments false [] (splitWhere (isSlash .web) rest) = _
    rw [hpieces, readSegments_eq_map [] hpoints, List.nil_append]
  have hne : (splitAt '/' rest).map (percentEncode staysInPath) ≠ [] :=
    mt List.map_eq_nil_iff.1 (splitWhere_ne_nil _ rest)
  calc renderSegments (segmentsOf .web (('/' :: rest) ++ behind))
      = '/' :: joinWith '/' ((splitAt '/' rest).map (percentEncode staysInPath)) := by
        rw [hread, renderSegments_eq_joinWith hne]
    _ = '/' :: percentEncode staysInPath rest := by
        rw [joinWith_map_percentEncode staysInPath_slash, joinWith_splitAt]
    _ = percentEncode staysInPath ('/' :: rest) := by
        rw [percentEncode_cons, if_pos staysInPath_slash, List.singleton_append]

/-! ## Servers

A server is a host with a port, or without. Each step of the reader looks for a character that no
part of a server has: for the slash behind it, for the mark of a user, for the colon of the port. -/

/-- A character of a host name that is its own standard form. -/
def isHostChar (c : Char) : Bool := c.isLower || c.isDigit || c == '.' || c == '-'

/-- A port behind a colon, or none. -/
def IsPort (port : List Char) : Prop :=
  port = [] ∨ ∃ digits, port = ':' :: digits ∧ (∀ c ∈ digits, c.isDigit = true) ∧
    natOfDecimal digits ≤ 65535

/-- A host name that is accepted, and perhaps a port. -/
structure IsServer (host port : List Char) : Prop where
  named : host ≠ []
  plain : ∀ c ∈ host, isHostChar c = true
  accepted : (webHost? host).isSome = true
  numbered : IsPort port

variable {host port rest : List Char} {scheme : String}

/-- Characters that end a server, divide it otherwise than at a colon, or are dropped before. -/
def outsideServer : List Char := ['/', '\\', '?', '#', '@', '[', ']', '\t', '\n', '\r']

theorem isHostChar_outsideServer : ∀ c ∈ ':' :: outsideServer, isHostChar c = false := by
  decide

theorem isPortChar_outsideServer : ∀ c ∈ outsideServer, (c == ':' || c.isDigit) = false := by
  decide

theorem IsPort.plain (h : IsPort port) : ∀ c ∈ port, (c == ':' || c.isDigit) = true := by
  obtain rfl | ⟨digits, rfl, hdigits, -⟩ := h
  · simp
  · intro c hc
    rcases List.mem_cons.1 hc with rfl | hdigit
    · rfl
    · simp [hdigits c hdigit]

namespace IsServer

theorem not_mem (h : IsServer host port) {c : Char} (hc : c ∈ outsideServer) :
    c ∉ host ++ port := by
  intro hmem
  rcases List.mem_append.1 hmem with hhost | hport
  · have hplain := h.plain c hhost
    rw [isHostChar_outsideServer c (List.mem_cons_of_mem _ hc)] at hplain
    cases hplain
  · have hplain := h.numbered.plain c hport
    rw [isPortChar_outsideServer c hc] at hplain
    cases hplain

theorem not_isEnd (h : IsServer host port) (kind : Kind) :
    ∀ c ∈ host ++ port, (!(isSlash kind c || endsPath c)) = true := by
  intro c hc
  have hslash : c ≠ '/' := fun heq => h.not_mem (by decide) (heq ▸ hc)
  have hback : c ≠ '\\' := fun heq => h.not_mem (by decide) (heq ▸ hc)
  have hquery : c ≠ '?' := fun heq => h.not_mem (by decide) (heq ▸ hc)
  have hfragment : c ≠ '#' := fun heq => h.not_mem (by decide) (heq ▸ hc)
  simp [isSlash, endsPath, hslash, hback, hquery, hfragment]

end IsServer

/-- The host ends at the first colon, and only a port starts with one. -/
theorem splitHost_append (hhost : ∀ c ∈ host, isHostChar c = true) (hport : IsPort port) :
    splitHost false (host ++ port) = (host, port) := by
  induction host with
  | nil =>
    obtain rfl | ⟨digits, rfl, -⟩ := hport
    · rfl
    · rfl
  | cons c rest ih =>
    obtain ⟨hc, hrest⟩ := List.forall_mem_cons.1 hhost
    have hne : ∀ d ∈ ':' :: outsideServer, c ≠ d := by
      rintro d hd rfl
      rw [isHostChar_outsideServer c hd] at hc
      cases hc
    have hcolon := hne ':' (by decide)
    have hopens := hne '[' (by decide)
    have hcloses := hne ']' (by decide)
    simp [splitHost, hcolon, hopens, hcloses, ih hrest]

/-- A port in range is read to its end; it is not kept if it is that of the scheme. -/
theorem port?_of_isPort (scheme : String) (h : IsPort port) :
    ∃ n, port? scheme port = some (n, []) := by
  obtain rfl | ⟨digits, rfl, hdigits, hn⟩ := h
  · exact ⟨none, rfl⟩
  · obtain ⟨htake, hdrop⟩ := takeWhile_dropWhile_append (u := []) hdigits (by simp)
    rw [List.append_nil] at htake hdrop
    rw [port?, htake, hdrop]
    rw [if_neg (by simpa using hn)]
    split
    · exact ⟨none, rfl⟩
    · exact ⟨_, rfl⟩

/-- A server ends in front of the path, which is read behind it. -/
theorem behindSlashes?_append (hkind : kindOf scheme = .web) (hserver : IsServer host port)
    (hrest : rest.head? = some '/') :
    ∃ u, behindSlashes? scheme (host ++ port ++ rest) = some u ∧
      u.path = .segments (segmentsOf .web rest) := by
  obtain ⟨htake, hdrop⟩ := takeWhile_dropWhile_append
    (p := fun c => !(isSlash .web c || endsPath c)) (u := rest) (hserver.not_isEnd .web) (by
      intro c hc
      obtain rfl : '/' = c := by simpa [hrest] using hc
      rfl)
  -- no user stands in front of the host
  have huser : splitUser (host ++ port) = (none, host ++ port) :=
    if_neg (hserver.not_mem (by decide))
  have hsplit := splitHost_append hserver.plain hserver.numbered
  obtain ⟨name, hname⟩ := Option.isSome_iff_exists.1 hserver.accepted
  obtain ⟨n, hn⟩ := port?_of_isPort scheme hserver.numbered
  have hempty : host.isEmpty = false := by simpa using hserver.named
  refine ⟨⟨scheme, some name, n, .segments (segmentsOf .web rest)⟩, ?_, rfl⟩
  unfold behindSlashes?
  simp only [hkind, htake, hdrop, huser, hsplit, host?, hname, hn, hempty]
  simp [isUserRefused]

/-! ### Names that are their own host

For a name of small letters, digits, points and hyphens each step towards the ASCII form is the
identity. There are few enough ASCII characters to go through them all. -/

theorem isHostChar_lt {c : Char} (h : isHostChar c = true) : c.toNat < 0x80 := by
  simp only [isHostChar, Bool.or_eq_true, beq_iff_eq, Text.isLower_iff, Text.isDigit_iff] at h
  rcases h with ((⟨-, hlower⟩ | ⟨-, hdigit⟩) | rfl) | rfl
  · have hle : c.toNat ≤ 122 := UInt32.le_iff_toNat_le.1 hlower
    omega
  · have hle : c.toNat ≤ 57 := UInt32.le_iff_toNat_le.1 hdigit
    omega
  · decide
  · decide

/-- By going through the characters below 128. -/
theorem isHostChar_ofNat : ∀ n < 0x80, isHostChar (Char.ofNat n) = true →
    DomainName.isIgnored (Char.ofNat n) = false ∧
      DomainName.standard (Char.ofNat n) = [Char.ofNat n] ∧
      DomainName.isForbidden (Char.ofNat n) = false := by
  decide +kernel

/-- A character of a host name is kept in it. -/
theorem isHostChar_spec {c : Char} (h : isHostChar c = true) :
    DomainName.isIgnored c = false ∧ DomainName.standard c = [c] ∧
      DomainName.isForbidden c = false := by
  have hspec := isHostChar_ofNat c.toNat (isHostChar_lt h)
  rw [Char.ofNat_toNat] at hspec
  exact hspec h

theorem mapM_eq_some_self {f : List Char → Option (List Char)} {pieces : List (List Char)}
    (h : ∀ s ∈ pieces, f s = some s) : pieces.mapM f = some pieces := by
  induction pieces with
  | nil => rfl
  | cons s rest ih =>
    obtain ⟨hs, hrest⟩ := List.forall_mem_cons.1 h
    rw [List.mapM_cons, hs, ih hrest]
    rfl

theorem standardize_eq_self (hplain : ∀ c ∈ host, isHostChar c = true) :
    DomainName.standardize host = host := by
  have hkept : host.filter (fun c => !DomainName.isIgnored c) = host :=
    List.filter_eq_self.2 fun c hc => by simp [(isHostChar_spec (hplain c hc)).1]
  rw [DomainName.standardize, hkept]
  clear hkept
  induction host with
  | nil => rfl
  | cons c rest ih =>
    obtain ⟨hc, hrest⟩ := List.forall_mem_cons.1 hplain
    rw [List.flatMap_cons, (isHostChar_spec hc).2.1, ih hrest, List.singleton_append]

theorem label?_eq_some_self {label : List Char} (hplain : ∀ c ∈ label, isHostChar c = true)
    (hencoded : DomainName.encodedMark.isPrefixOf label = false) :
    DomainName.label? label = some label := by
  have hascii : (label.any fun c => decide (0x80 ≤ c.toNat)) = false := by
    refine List.any_eq_false.2 fun c hc => ?_
    have := isHostChar_lt (hplain c hc)
    simpa using this
  rw [DomainName.label?, hascii, hencoded]
  rfl

/-- A name that is neither a number nor encoded is accepted as it stands. -/
theorem webHost?_eq_some (hne : host ≠ []) (hplain : ∀ c ∈ host, isHostChar c = true)
    (hnumber : endsInNumber host = false)
    (hencoded : ∀ label ∈ splitAt '.' host, DomainName.encodedMark.isPrefixOf label = false) :
    webHost? host = some (String.ofList host) := by
  -- nothing is escaped, and the host is no address in brackets
  have hpercent : '%' ∉ host := fun hmem => absurd (hplain '%' hmem) (by decide)
  have hbracket : host.head? ≠ some '[' := fun hhead =>
    absurd (hplain '[' (List.mem_of_mem_head? hhead)) (by decide)
  have hallowed : host.any DomainName.isForbidden = false :=
    List.any_eq_false.2 fun c hc => by simp [(isHostChar_spec (hplain c hc)).2.2]
  have hlabels : (splitAt '.' host).mapM DomainName.label? = some (splitAt '.' host) :=
    mapM_eq_some_self fun label hlabel =>
      label?_eq_some_self (fun c hc => hplain c (mem_of_mem_splitAt hlabel hc))
        (hencoded label hlabel)
  have hname : DomainName.ascii? host = some host := by
    rw [DomainName.ascii?, standardize_eq_self hplain]
    show (if host.any DomainName.isForbidden = true then none else _) = some host
    rw [hallowed, if_neg Bool.false_ne_true, hlabels, Option.map_some, joinWith_splitAt]
  rw [webHost?, if_neg hbracket, percentDecode?_of_not_mem hpercent]
  simp [hname, hne, hnumber]

/-! ## Whole texts

A text is cleaned first: blanks at its ends and tabs and line breaks inside are taken out. What is
cleaned away stands behind the path, so the path is not touched. -/

/-- Cleaning keeps a first piece that has nothing to clean, and something like what is behind it. -/
theorem exists_clean_append {front : List Char} (hne : front ≠ [])
    (hhead : ∀ c ∈ front.head?, 0x20 < c.toNat) (hlast : ∀ c ∈ front.getLast?, 0x20 < c.toNat)
    (hfront : ∀ c ∈ front, c ∉ ['\t', '\n', '\r']) (hbehind : IsBehindPath behind) :
    ∃ behind', clean (front ++ behind) = front ++ behind' ∧ IsBehindPath behind' := by
  -- trimming both ends stops at the ends of the piece in front, or takes from what is behind
  obtain ⟨rest, hrest, hsame⟩ := dropWhile_ends_append (p := fun c => c.toNat ≤ 0x20) hne
    (by simpa using hhead) (by simpa using hlast) (hbehind.head rfl rfl)
  unfold clean
  dsimp only
  rw [hrest, List.filter_append, List.filter_eq_self.2 (by
    intro c hc
    have := hfront c hc
    simp_all)]
  refine ⟨_, rfl, ?_⟩
  -- what is left behind starts with the same character, if anything is left
  rw [IsBehindPath, ← hsame] at hbehind
  cases rest with
  | nil => simp [IsBehindPath]
  | cons c rest =>
    rcases hbehind c rfl with rfl | rfl
    · simp [IsBehindPath]
    · simp [IsBehindPath]

/-- A text that starts with a single slash names a path on the own server. -/
theorem ofReference?_append (hpath : IsPlainPath path) (hsecond : path.tail.head? ≠ some '/')
    (hbehind : IsBehindPath behind) :
    scheme? (path ++ behind) = none ∧
      ofReference? (path ++ behind) = some (ofReference?.onLocalhost (path ++ behind)) := by
  obtain ⟨rest, rfl⟩ := hpath.exists_eq_cons
  refine ⟨rfl, ?_⟩
  -- a second slash would start a server
  have hslash : ∀ c ∈ (rest ++ behind).head?, isSlash .web c = false := by
    intro c hc
    cases rest with
    | nil => exact hbehind.head rfl rfl c hc
    | cons d rest =>
      obtain rfl : d = c := by simpa using hc
      rw [hpath.isSlash_eq .web d (by simp)]
      simpa using hsecond
  rw [List.cons_append]
  cases hcs : rest ++ behind with
  | nil => rfl
  | cons c tail =>
    have hc := hslash c (by rw [hcs]; rfl)
    have hne : c ≠ '/' := by
      rintro rfl
      cases hc
    rw [ofReference?]
    · rw [hc, Bool.and_false]
      rfl
    · simpa using hne

theorem ofScheme?_of_web (h : kindOf scheme = .web) (text : List Char) :
    ofScheme? scheme text = behindSlashes? scheme (text.dropWhile (isSlash .web)) := by
  unfold ofScheme?
  rw [h]

/-- A text with a scheme of the web names a server and what is behind it. -/
theorem ofScheme?_append (hscheme : scheme = "http" ∨ scheme = "https")
    (hserver : IsServer host port) (hrest : rest.head? = some '/') :
    ∃ text u, scheme? (scheme.toList ++ "://".toList ++ (host ++ port ++ rest)) =
        some (scheme, text) ∧
      ofScheme? scheme text = some u ∧ u.path = .segments (segmentsOf .web rest) := by
  have hkind : kindOf scheme = .web := by
    rcases hscheme with rfl | rfl
    · rfl
    · rfl
  obtain ⟨u, hu, hpath⟩ := behindSlashes?_append hkind hserver hrest
  refine ⟨"//".toList ++ (host ++ port ++ rest), u, ?_, ?_, hpath⟩
  · rcases hscheme with rfl | rfl
    · rfl
    · rfl
  -- all slashes behind the scheme are dropped, and a host does not start with one
  · have hdrop : ("//".toList ++ (host ++ port ++ rest)).dropWhile (isSlash .web) =
        host ++ port ++ rest := by
      refine (takeWhile_dropWhile_append (by decide) fun c hc => ?_).2
      have hmem : c ∈ host ++ port := by
        cases host with
        | nil => exact absurd rfl hserver.named
        | cons d host =>
          obtain rfl : d = c := by simpa using hc
          exact List.mem_cons_self
      have := hserver.not_isEnd .web c hmem
      simp_all
    rw [ofScheme?_of_web hkind, hdrop, hu]

end EndpointDocs.Url
