import EndpointDocs.Endpoint
import EndpointDocs.Proofs.Text.Percent
import EndpointDocs.Proofs.Url.Parts

/-!
# Paths that start with a slash

    text ──resolve?──▶ segments ──renderSegments──▶ /…/… ──percentDecode?──▶ path

A path is written with a slash in front of each segment, and decoding keeps a slash at the start. So
the path of a unit starts with a slash if its location has a segment, that is unless the text names
only a server, of a scheme that is neither of the web nor of files; then it is empty
(`rooted_of_path`).
-/

namespace EndpointDocs.Endpoint

open Text Url

variable {raw path : String} {unit : Element}

theorem pathOf?_eq_some (h : pathOf? raw = some path) :
    (namesServerOnly raw = true ∧ path = "") ∨
      (namesServerOnly raw = false ∧ path.toList.head? = some '/') := by
  unfold pathOf? at h
  split at h
  · cases h
  · obtain ⟨u, hu, hrest⟩ := Option.bind_eq_some_iff.1 h
    split at hrest
    · cases hrest
    · next hbase =>
      obtain ⟨ds, hdecode, hpath⟩ := Option.bind_eq_some_iff.1 hrest
      cases hpath
      -- a URL that cannot be a base was ruled out before
      rcases resolve?_eq_some hu with ⟨-, text, hundivided⟩ | ⟨list, hsegments, hnil⟩
      · rw [cannotBeABase, hundivided] at hbase
        exact absurd rfl hbase
      · rw [pathText, hsegments] at hdecode
        dsimp only at hdecode
        rw [String.toList_ofList] at hdecode
        -- without segments the path is empty, and else it starts with a slash
        cases list with
        | nil =>
          cases hdecode
          exact .inl ⟨hnil.1 rfl, rfl⟩
        | cons s rest =>
          have hnamed : namesServerOnly raw = false :=
            Bool.eq_false_iff.2 fun honly => List.cons_ne_nil s rest (hnil.2 honly)
          have hhead : ds.head? = some '/' := head?_of_percentDecode? (by decide) hdecode
          exact .inr ⟨hnamed, by rwa [String.toList_ofList]⟩

/-- The path of a unit starts with a slash unless its text names only a server of a scheme that is
neither of the web nor of files; it is empty then. -/
theorem rooted_of_path (h : Endpoint.path unit = .ok path) :
    ∃ url, unit.childrenNamed "url" = [url] ∧
      (path.toList.head? = some '/' ↔ namesServerOnly url.ownText = false) ∧
        (path.toList.head? = some '/' ∨ path = "") := by
  unfold Endpoint.path at h
  split at h
  · next url hurl =>
    split at h
    · next found hfound =>
      cases h
      refine ⟨url, hurl, ?_⟩
      rcases pathOf?_eq_some hfound with ⟨honly, rfl⟩ | ⟨hnamed, hhead⟩
      · rw [honly]
        exact ⟨by decide, .inr rfl⟩
      · exact ⟨iff_of_true hhead hnamed, .inl hhead⟩
    · cases h
  · cases h

/-- A unit of which only the location is given. -/
def unitAt (location : String) : Element := ⟨"operation", ∅, [Element.ofText "url" location], none⟩

theorem rooted_mapsUnit : Endpoint.path (unitAt "git://host:9418/all%20maps?q") = .ok "/all maps" ∧
    "/all maps".toList.head? = some '/' := by
  have hpath : Endpoint.path (unitAt "git://host:9418/all%20maps?q") = .ok "/all maps" := rfl
  obtain ⟨url, hurl, hrooted, -⟩ := rooted_of_path hpath
  obtain rfl : Element.ofText "url" "git://host:9418/all%20maps?q" = url := (List.cons.inj hurl).1
  exact ⟨hpath, hrooted.2 (rfl)⟩

theorem path_without_slash : Endpoint.path (unitAt "foo://host") = .ok "" ∧
    "".toList.head? ≠ some '/' := by
  exact ⟨rfl, by decide⟩

end EndpointDocs.Endpoint
