import EndpointDocs.Text.Percent

/-!
# Percent decoding undoes percent encoding

Two digits read back as the byte that was written (`hexPair?_digits`), and a character that is kept
reads as its own bytes. The bytes of an encoded text are therefore the UTF-8 form of the text, and
decoding gives the text itself (`percentDecode?_percentEncode`), whichever characters the encoding
keeps. Only the percent sign must not be kept: a kept one, with two digits behind it, would read as
a byte.
-/

namespace EndpointDocs.Text

variable {keep : Char → Bool} {cs : List Char}

/-! ## One byte -/

theorem hexDigitValue?_hexDigit : ∀ n < 16, hexDigitValue? (hexDigit n) = some n := by
  decide

theorem hexPair?_digits (b : UInt8) :
    hexPair? (hexDigit (b.toNat / 16)) (hexDigit (b.toNat % 16)) = some b := by
  have hb : b.toNat < 256 := b.toNat_lt
  have hhigh := hexDigitValue?_hexDigit (b.toNat / 16) (by omega)
  have hlow := hexDigitValue?_hexDigit (b.toNat % 16) (by omega)
  rw [hexPair?, hhigh, hlow]
  show some (UInt8.ofNat (b.toNat / 16 * 16 + b.toNat % 16)) = some b
  rw [Nat.div_add_mod', UInt8.ofNat_toNat]

/-- A byte that is written as two digits is read as the byte. -/
theorem percentBytes_percentByte (b : UInt8) (rest : List Char) :
    percentBytes (percentByte b ++ rest) = b :: percentBytes rest := by
  simp only [percentByte, List.cons_append, List.nil_append]
  rw [percentBytes, hexPair?_digits]

theorem percentBytes_flatMap_percentByte (bytes : List UInt8) (rest : List Char) :
    percentBytes (bytes.flatMap percentByte ++ rest) = bytes ++ percentBytes rest := by
  induction bytes with
  | nil => rfl
  | cons b bytes ih =>
    rw [List.flatMap_cons, List.append_assoc, percentBytes_percentByte, ih]
    rfl

/-! ## Whole texts -/

theorem percentBytes_cons_of_ne {c : Char} (hc : c ≠ '%') (rest : List Char) :
    percentBytes (c :: rest) = String.utf8EncodeChar c ++ percentBytes rest := by
  rw [percentBytes]
  simp [hc]

theorem percentEncode_cons (c : Char) (rest : List Char) :
    percentEncode keep (c :: rest) =
      (if keep c then [c] else (String.utf8EncodeChar c).flatMap percentByte) ++
        percentEncode keep rest :=
  List.flatMap_cons

/-- The bytes of an encoded text are its UTF-8 form. -/
theorem percentBytes_percentEncode (h : '%' ∈ cs → keep '%' = false) :
    percentBytes (percentEncode keep cs) = cs.flatMap String.utf8EncodeChar := by
  induction cs with
  | nil => rfl
  | cons c rest ih =>
    have hrest := ih fun hmem => h (List.mem_cons_of_mem c hmem)
    rw [percentEncode_cons, List.flatMap_cons]
    by_cases hkeep : keep c = true
    · -- a kept character is no percent sign
      have hc : c ≠ '%' := by
        rintro rfl
        rw [h List.mem_cons_self] at hkeep
        cases hkeep
      rw [if_pos hkeep, List.singleton_append, percentBytes_cons_of_ne hc, hrest]
    · rw [if_neg hkeep, percentBytes_flatMap_percentByte, hrest]

/-- A text without percent signs, or whose percent signs are written as bytes, is read back. -/
theorem percentDecode?_percentEncode (h : '%' ∈ cs → keep '%' = false) :
    percentDecode? (percentEncode keep cs) = some cs := by
  rw [percentDecode?, percentBytes_percentEncode h]
  show cs.utf8Encode.utf8Decode?.map Array.toList = some cs
  rw [List.utf8Decode?_utf8Encode]
  rfl

theorem percentDecode?_of_not_mem (h : '%' ∉ cs) : percentDecode? cs = some cs := by
  have hkept : percentEncode (fun _ => true) cs = cs := List.flatMap_singleton' cs
  have hdecode : percentDecode? (percentEncode (fun _ => true) cs) = some cs :=
    percentDecode?_percentEncode fun hmem => absurd hmem h
  rwa [hkept] at hdecode

/-- A decoded text starts with the character that the encoded one starts with, if that is not the
percent sign. -/
theorem head?_of_percentDecode? {c : Char} {ds : List Char} (hc : c ≠ '%')
    (h : percentDecode? (c :: cs) = some ds) : ds.head? = some c := by
  obtain ⟨decoded, hdecoded, rfl⟩ := Option.map_eq_some_iff.1 h
  -- a character that is not encoded stands for its own bytes, in front of all others
  have hbytes : decoded.toList.utf8Encode =
      (String.utf8EncodeChar c).toByteArray ++ (percentBytes cs).toByteArray := by
    have hsome : (percentBytes (c :: cs)).toByteArray.utf8Decode?.isSome := by rw [hdecoded]; rfl
    have hget := ByteArray.utf8Encode_get_utf8Decode? (h := hsome)
    simp only [hdecoded, Option.get_some] at hget
    rw [hget, percentBytes_cons_of_ne hc, List.toByteArray_append]
  -- and a character is decoded from its own bytes, whatever follows
  have hfirst : decoded.toList.utf8Encode.utf8DecodeChar? 0 = some c := by
    rw [hbytes, ByteArray.utf8DecodeChar?_utf8EncodeChar_append]
  cases hlist : decoded.toList with
  | nil =>
    rw [hlist] at hfirst
    cases hfirst
  | cons d rest =>
    rw [hlist, List.utf8DecodeChar?_utf8Encode_cons] at hfirst
    rw [List.head?_cons, hfirst]

end EndpointDocs.Text
