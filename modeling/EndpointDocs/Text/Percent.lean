import EndpointDocs.Text.Ascii

/-!
# Percent encoding

    text ──percentEncode──▶ text with %XX ──percentDecode?──▶ text

`percentEncode` writes the characters outside a given set as the bytes of their UTF-8 form, each as
a percent sign and two hexadecimal digits. `percentDecode?` reads such bytes back: a percent sign
without two hexadecimal digits behind it stands for itself, and bytes that are not UTF-8 have no
text.
-/

namespace EndpointDocs.Text

def hexDigit (n : Nat) : Char :=
  if n < 10 then Char.ofNat (n + '0'.toNat) else Char.ofNat (n - 10 + 'A'.toNat)

def hexPair? (high low : Char) : Option UInt8 := do
  return UInt8.ofNat ((← hexDigitValue? high) * 16 + (← hexDigitValue? low))

/-- A byte as a percent sign and two digits. -/
def percentByte (b : UInt8) : List Char := ['%', hexDigit (b.toNat / 16), hexDigit (b.toNat % 16)]

/-- Write every character that is not kept as the bytes of its UTF-8 form. -/
def percentEncode (keep : Char → Bool) (cs : List Char) : List Char :=
  cs.flatMap fun c => if keep c then [c] else (String.utf8EncodeChar c).flatMap percentByte

/-- The bytes that a text stands for. -/
def percentBytes : List Char → List UInt8
  | '%' :: high :: low :: rest =>
    match hexPair? high low with
    | some b => b :: percentBytes rest
    | none => String.utf8EncodeChar '%' ++ percentBytes (high :: low :: rest)
  | c :: rest => String.utf8EncodeChar c ++ percentBytes rest
  | [] => []

/-- The text that the bytes of a text spell. -/
def percentDecode? (cs : List Char) : Option (List Char) :=
  (percentBytes cs).toByteArray.utf8Decode?.map Array.toList

end EndpointDocs.Text
