import EndpointDocs.Proofs.Text.Cutting
import EndpointDocs.Url
import Mathlib.Data.List.TakeWhile

/-!
# The parts of a location

    text ──scheme?──▶ scheme, text ──ofScheme?──▶ host, port, segments
      └────────────ofReference?────────────────▶ segments on the own server

The path of a location with a host is divided into segments, whatever its scheme
(`resolve?_eq_some`). There is at least one segment, except behind a server that has nothing behind
it and whose scheme is neither of the web nor of files (`isServerOnly`): `foo://host` has the empty
path, and `http://host` the path `/`.
-/

namespace EndpointDocs.Url

open Text

variable {cs text behind : List Char} {scheme : String} {kind : Kind} {u : Url}

/-! ## Segments

There is a segment for every piece between slashes, the empty ones included. Dots take segments away
but leave an empty one at the end, so none is left only if there was nothing to read. -/

/-- What is read of segments is at least one segment. -/
theorem readSegments_ne_nil {files : Bool} {front segments : List (List Char)}
    (h : segments ≠ []) : readSegments files front segments ≠ [] := by
  induction segments generalizing front with
  | nil => exact absurd rfl h
  | cons s rest ih =>
    rw [readSegments]
    cases rest with
    | nil =>
      split
      · simp [readSegments]
      · simp [readSegments]
    | cons t rest =>
      split
      · exact ih (List.cons_ne_nil t rest)
      · exact ih (List.cons_ne_nil t rest)

/-- Web locations and files have a segment even then. -/
theorem segmentsOf_eq_nil_iff : segmentsOf kind text = [] ↔
    kind = .other ∧ text.takeWhile (fun c => !endsPath c) = [] := by
  unfold segmentsOf
  dsimp only
  split
  · next h => simpa [and_comm] using h
  · next h =>
    refine iff_of_false (readSegments_ne_nil (splitWhere_ne_nil _ _)) ?_
    rintro ⟨rfl, hnil⟩
    rw [hnil] at h
    exact h rfl

/-- A leading empty segment is dropped only if another one is behind it. -/
theorem withoutEmptyFront_ne_nil (segments : List (List Char)) :
    withoutEmptyFront segments ≠ [] := by
  unfold withoutEmptyFront
  split
  · exact List.cons_ne_nil _ _
  · assumption

/-- A path with segments starts with a slash. -/
theorem head?_renderSegments {segments : List (List Char)} (h : segments ≠ []) :
    (renderSegments segments).head? = some '/' := by
  obtain ⟨s, rest, rfl⟩ := List.exists_cons_of_ne_nil h
  rfl

/-! ## Behind two slashes

A server is cut into user, host and port. Where its end is matters here, since an empty path is one
with nothing between this end and the query. -/

/-- What is left of a server behind its host is nothing, or begins with the colon of a port. -/
theorem head?_splitHost (inside : Bool) (cs : List Char) :
    ∀ c ∈ (splitHost inside cs).2.head?, c = ':' := by
  induction cs generalizing inside with
  | nil => simp [splitHost]
  | cons c rest ih =>
    rw [splitHost]
    split
    · next hcolon =>
      obtain ⟨rfl, -⟩ : c = ':' ∧ inside = false := by simpa using hcolon
      simp
    · exact ih _

/-- Behind a port stands what is behind its first backslash, and that too. -/
theorem port?_eq_some {n : Option Nat} (hcs : ∀ c ∈ cs.head?, c = ':')
    (h : port? scheme cs = some (n, behind)) : behind = cs.dropWhile (· ≠ '\\') := by
  cases cs with
  | nil =>
    cases h
    rfl
  | cons c ds =>
    obtain rfl := hcs c rfl
    rw [port?] at h
    split at h
    · cases h
    · next hrest =>
      have hbehind : behind = ds.dropWhile Char.isDigit := by
        split at h
        · cases h; rfl
        · cases h; rfl
      -- no digit is a backslash, and behind the digits is nothing or a backslash
      have hdigits : ∀ c ∈ ds.takeWhile Char.isDigit, decide (c ≠ '\\') = true := by
        intro c hc
        have hdigit := List.mem_takeWhile_imp hc
        refine decide_eq_true ?_
        rintro rfl
        cases hdigit
      have hhead : ∀ c ∈ (ds.dropWhile Char.isDigit).head?, decide (c ≠ '\\') = false := by
        intro c hc
        have hne : ds.dropWhile Char.isDigit ≠ [] := by
          intro hnil
          rw [hnil] at hc
          cases hc
        have hback : (ds.dropWhile Char.isDigit).head? = some '\\' := by
          by_contra hother
          exact hrest (.inr ⟨hne, hother⟩)
        rw [hback] at hc
        cases hc
        rfl
      have hcut := (takeWhile_dropWhile_append hdigits hhead).2
      rw [List.takeWhile_append_dropWhile] at hcut
      rw [hbehind, List.dropWhile_cons_of_pos (by decide), hcut]

/-- What stands between a server and the query. The server ends in front of a slash, its port also
in front of a backslash. -/
def behindServer (text : List Char) : List Char :=
  let isEnd := fun c => isSlash .other c || endsPath c
  let server := (splitUser (text.takeWhile fun c => !isEnd c)).2
  let port := (splitHost false server).2
  (port.dropWhile (· ≠ '\\') ++ text.dropWhile fun c => !isEnd c).takeWhile fun c => !endsPath c

/-- The path behind a server has segments, or the scheme is an unknown one and there is nothing
behind. -/
theorem behindSlashes?_eq_some (h : behindSlashes? scheme text = some u) :
    ∃ list, u.path = .segments list ∧
      (list = [] ↔ kindOf scheme = .other ∧ behindServer text = []) := by
  unfold behindSlashes? at h
  dsimp only at h
  split at h
  · cases h
  · split at h
    · cases h
    · obtain ⟨host, -, hrest⟩ := Option.bind_eq_some_iff.1 h
      obtain ⟨⟨n, behind⟩, hport, hu⟩ := Option.bind_eq_some_iff.1 hrest
      cases hu
      refine ⟨_, rfl, segmentsOf_eq_nil_iff.trans (and_congr_right fun hkind => ?_)⟩
      rw [hkind] at hport ⊢
      rw [port?_eq_some (head?_splitHost false _) hport]
      rfl

/-! ## Behind a scheme

The three kinds of schemes are read in three ways. Files and the web always come with a path, so a
location without one has a scheme of the third kind, two slashes and a server. -/

/-- Behind the colon of a scheme that is neither of the web nor of files stands a server and no
path. -/
def isServerOnly (scheme : String) (text : List Char) : Bool :=
  match kindOf scheme, text with
  | .other, '/' :: '/' :: rest => (behindServer rest).isEmpty
  | _, _ => false

/-- Every case of reading a file ends in a location of a file. -/
theorem file?_eq_some (h : file? text = some u) :
    ∃ host segments, u = fileLocation host segments := by
  unfold file? at h
  dsimp only at h
  -- two slashes or not, and behind them a drive, no host, `localhost` or another host
  split at h
  · split at h
    · split at h
      · cases h
        exact ⟨_, _, rfl⟩
      · split at h
        · cases h
          exact ⟨_, _, rfl⟩
        · obtain ⟨host, -, hu⟩ := Option.bind_eq_some_iff.1 h
          split at hu
          · cases hu
            exact ⟨_, _, rfl⟩
          · cases hu
            exact ⟨_, _, rfl⟩
    · cases h
      exact ⟨_, _, rfl⟩
  · cases h
    exact ⟨_, _, rfl⟩

/-- A path is not divided, without a host, or it has segments unless there is only a server. -/
theorem ofScheme?_eq_some (h : ofScheme? scheme text = some u) :
    (u.host = none ∧ ∃ path, u.path = .undivided path) ∨
      ∃ list, u.path = .segments list ∧ (list = [] ↔ isServerOnly scheme text = true) := by
  unfold ofScheme? at h
  cases hkind : kindOf scheme with
  | file =>
    rw [hkind] at h
    obtain ⟨host, segments, rfl⟩ := file?_eq_some h
    refine .inr ⟨_, rfl, iff_of_false (withoutEmptyFront_ne_nil segments) ?_⟩
    simp [isServerOnly, hkind]
  | web =>
    rw [hkind] at h
    obtain ⟨list, hpath, hnil⟩ := behindSlashes?_eq_some h
    refine .inr ⟨list, hpath, hnil.trans (iff_of_false ?_ ?_)⟩
    · rw [hkind]
      rintro ⟨hother, -⟩
      cases hother
    · simp [isServerOnly, hkind]
  | other =>
    rw [hkind] at h
    dsimp only at h
    split at h
    · next rest =>
      obtain ⟨list, hpath, hnil⟩ := behindSlashes?_eq_some h
      refine .inr ⟨list, hpath, hnil.trans ?_⟩
      simp [isServerOnly, hkind]
    · next rest hslash =>
      cases h
      refine .inr ⟨_, rfl, iff_of_false ?_ ?_⟩
      · intro hnil
        have hpath := (segmentsOf_eq_nil_iff.1 hnil).2
        rw [List.takeWhile_cons_of_pos (by decide)] at hpath
        cases hpath
      · unfold isServerOnly
        rw [hkind]
        split
        -- a single slash is no server, and begins a segment
        · next rest' _ hrest => exact absurd (List.cons.inj hrest).2 (hslash rest')
        · exact Bool.false_ne_true
    · cases h
      exact .inl ⟨rfl, _, rfl⟩

/-! ## Whole texts

A text without a scheme is completed by the web server of this machine, and that gives it a path. -/

/-- Each way of completing a text leads to a location of the web. -/
theorem ofReference?_eq_some (h : ofReference? cs = some u) :
    ∃ list, u.path = .segments list ∧ list ≠ [] := by
  -- two slashes name a server of the web, whose path has a first segment
  have hserver : ∀ text, behindSlashes? "http" text = some u →
      ∃ list, u.path = .segments list ∧ list ≠ [] := by
    intro text htext
    obtain ⟨list, hpath, hnil⟩ := behindSlashes?_eq_some htext
    exact ⟨list, hpath, fun hlist => absurd (hnil.1 hlist).1 (by decide)⟩
  -- anything else is put behind the server of this machine
  have hlocal : ∀ cs, ofReference?.onLocalhost cs = u →
      ∃ list, u.path = .segments list ∧ list ≠ [] := by
    rintro cs rfl
    refine ⟨_, rfl, fun hnil => ?_⟩
    cases (segmentsOf_eq_nil_iff.1 hnil).1
  unfold ofReference? at h
  dsimp only at h
  split at h
  · exact hserver _ h
  · split at h
    · exact hserver _ h
    · exact hlocal _ (Option.some.inj h)
  · exact hlocal _ (Option.some.inj h)

/-- A text names a server of a scheme that is neither of the web nor of files, and no path. -/
def namesServerOnly (raw : String) : Bool :=
  match scheme? (clean raw.toList) with
  | some (scheme, text) => isServerOnly scheme text
  | none => false

/-- A path is undivided, or it is a list of segments that is empty exactly behind a server alone. -/
theorem resolve?_eq_some {raw : String} (h : resolve? raw = some u) :
    (u.host = none ∧ ∃ path, u.path = .undivided path) ∨
      ∃ list, u.path = .segments list ∧ (list = [] ↔ namesServerOnly raw = true) := by
  unfold resolve? at h
  unfold namesServerOnly
  cases hscheme : scheme? (clean raw.toList) with
  | none =>
    simp only [hscheme] at h
    obtain ⟨list, hpath, hne⟩ := ofReference?_eq_some h
    exact .inr ⟨list, hpath, iff_of_false hne Bool.false_ne_true⟩
  | some found =>
    simp only [hscheme] at h
    exact ofScheme?_eq_some h

/-- A text that starts with a slash has no scheme, and an empty text has none. -/
theorem scheme?_clean_eq_none (h : ∀ c ∈ cs.head?, c = '/') : scheme? (clean cs) = none := by
  cases cs with
  | nil => rfl
  | cons c rest =>
    obtain rfl := h c rfl
    obtain ⟨kept, hkept⟩ : ∃ kept, clean ('/' :: rest) = '/' :: kept := by
      unfold clean
      dsimp only
      rw [List.dropWhile_cons_of_neg (by decide), List.reverse_cons, List.dropWhile_append]
      split
      · exact ⟨_, rfl⟩
      · rw [List.reverse_append]
        exact ⟨_, rfl⟩
    rw [hkept]
    rfl

end EndpointDocs.Url
