import EndpointDocs.Json.Draft
import EndpointDocs.Json.Printer

/-!
# Reading text that was written

    Json ──pretty──▶ text ──Draft.read?──▶ Draft

A value that is written over several lines is read back from its text (`read?_pretty`): a string
whatever characters it holds, as each is escaped on its own (`codePoints?_escapeChar`), an array or
object item by item, as the text of a value says where it ends (`value_prettyAt`). Numbers are left
aside; the statements are about values without any.
-/

namespace EndpointDocs

open Json Text

/-! ## Strings

A character is written in one of three forms: with a short escape, with its number in hexadecimal
digits, or as it is. The reader takes each of them back, whatever comes behind. -/

namespace Draft

/-- The digits that are written are digits to the reader. -/
theorem hexDigitValue?_hexDigit : ∀ n < 16, hexDigitValue? (hexDigit n) = some n := by decide

/-- Two digits are enough for a control character, and two zeros stand in front of them. -/
theorem hex4?_control {n : Nat} (h : n < 32) :
    hex4? '0' '0' (hexDigit (n / 16)) (hexDigit (n % 16)) = some n := by
  have hzero : hexDigitValue? '0' = some 0 := by decide
  have hhigh := hexDigitValue?_hexDigit (n / 16) (by omega)
  have hlow := hexDigitValue?_hexDigit (n % 16) (by omega)
  simp only [hex4?, hzero, hhigh, hlow, Option.bind_eq_bind, Option.bind_some, Option.pure_def,
    natOfDigits, List.foldl_cons, List.foldl_nil]
  congr 1
  omega

/-- A backslash and a letter. -/
theorem codePoints?_short {e c : Char} (h : shortEscape? e = some c) (rest : List Char) :
    codePoints? ('\\' :: e :: rest) = (codePoints? rest).map fun p => (c.toNat :: p.1, p.2) := by
  have hu : e ≠ 'u' := by
    rintro rfl
    cases h
  rw [codePoints?]
  · rw [h]
    cases codePoints? rest <;> rfl
  · intro a b c d rest' he
    exact absurd he hu

/-- A backslash and four digits. -/
theorem codePoints?_hex {a b c d : Char} {n : Nat} (h : hex4? a b c d = some n)
    (rest : List Char) : codePoints? ('\\' :: 'u' :: a :: b :: c :: d :: rest) =
      (codePoints? rest).map fun p => (n :: p.1, p.2) := by
  rw [codePoints?, h]
  cases codePoints? rest <;> rfl

/-- Any character that ends nothing and escapes nothing. -/
theorem codePoints?_plain {c : Char} (hquote : c ≠ '"') (hbackslash : c ≠ '\\')
    (hcontrol : 32 ≤ c.toNat) (rest : List Char) :
    codePoints? (c :: rest) = (codePoints? rest).map fun p => (c.toNat :: p.1, p.2) := by
  rw [codePoints?]
  · rw [if_neg]
    simp [hbackslash]
    omega
  all_goals simp [hquote, hbackslash]

/-- A character is read back from its escaped form. -/
theorem codePoints?_escapeChar (c : Char) (rest : List Char) :
    codePoints? (escapeChar c ++ rest) =
      (codePoints? rest).map fun p => (c.toNat :: p.1, p.2) := by
  unfold escapeChar
  by_cases hquote : c = '"'
  · subst hquote
    exact codePoints?_short rfl rest
  by_cases hbackslash : c = '\\'
  · subst hbackslash
    exact codePoints?_short rfl rest
  by_cases hnewline : c = '\n'
  · subst hnewline
    exact codePoints?_short rfl rest
  by_cases hreturn : c = '\r'
  · subst hreturn
    exact codePoints?_short rfl rest
  by_cases htab : c = '\t'
  · subst htab
    exact codePoints?_short rfl rest
  -- no short form with a letter is left
  simp only [beq_iff_eq, hquote, hbackslash, hnewline, hreturn, htab, if_false]
  split
  · next hbackspace =>
    rw [hbackspace]
    exact codePoints?_short (c := Char.ofNat 8) rfl rest
  split
  · next hfeed =>
    rw [hfeed]
    exact codePoints?_short (c := Char.ofNat 12) rfl rest
  split
  · next hcontrol => exact codePoints?_hex (hex4?_control hcontrol) rest
  · next hcontrol => exact codePoints?_plain hquote hbackslash (by omega) rest

/-- A whole string, up to the quote behind it. -/
theorem codePoints?_escaped (cs rest : List Char) :
    codePoints? (cs.flatMap escapeChar ++ '"' :: rest) = some (cs.map Char.toNat, rest) := by
  induction cs with
  | nil => rfl
  | cons c cs ih => rw [List.flatMap_cons, List.append_assoc, codePoints?_escapeChar, ih]; rfl

/-- No character is half of a surrogate pair. -/
theorem joinPairs?_toNat (cs : List Char) : joinPairs? (cs.map Char.toNat) = some cs := by
  induction cs with
  | nil => rfl
  | cons c cs ih =>
    have hvalid : c.toNat < 0xD800 ∨ 0xDFFF < c.toNat := by
      rcases c.valid with h | h
      · exact .inl h
      · exact .inr h.1
    cases cs with
    | nil =>
      rw [List.map_cons, List.map_nil, joinPairs?, if_neg (by simp; omega), Char.ofNat_toNat]
    | cons d cs =>
      rw [List.map_cons, List.map_cons, joinPairs?, if_neg (by simp; omega),
        if_neg (by simp; omega), ← List.map_cons, ih, Option.map_some, Char.ofNat_toNat]

/-- What the reader has for a string is the string. -/
theorem string?_escaped (s : String) (rest : List Char) :
    string? (s.toList.flatMap escapeChar ++ '"' :: rest) = some (some s, rest) := by
  simp only [string?, codePoints?_escaped, Option.map_some, joinPairs?_toNat, String.ofList_toList]

/-! ## Space

Lines and their indentation are space, and a reader of values skips it. So how deep a value is
indented matters for its length only. -/

theorem skipSpace_space (cs : List Char) : skipSpace (' ' :: cs) = skipSpace cs := rfl

theorem skipSpace_newline (level : Nat) (cs : List Char) :
    skipSpace (newline level ++ cs) = skipSpace cs := by
  have hspace : ∀ c ∈ newline level, isSpace c = true := by
    intro c hc
    rcases List.mem_cons.1 hc with rfl | hc
    · rfl
    · rw [List.eq_of_mem_replicate hc]
      rfl
  exact List.dropWhile_append_of_pos hspace

/-- Space in front of a value is skipped. -/
theorem value_congr {cs ds : List Char} (n : Nat) (h : skipSpace cs = skipSpace ds) :
    value n cs = value n ds := by
  cases n with
  | zero => rw [value, value]
  | succ n => rw [value, value, h]

end Draft

/-! ## Values

The reader works with fuel, of which a nested call gets one less. The text is longer than it is
deep, and twice its length pays for the calls of arrays and objects, which come two at a time: one
for the list and one for the value in it. -/

namespace Json

mutual

/-- No number occurs in the value. -/
def Numberless : Json → Prop
  | .number _ => False
  | .array items => NumberlessItems items
  | .object fields => NumberlessFields fields
  | _ => True

def NumberlessItems : List Json → Prop
  | [] => True
  | v :: rest => Numberless v ∧ NumberlessItems rest

def NumberlessFields : List (String × Json) → Prop
  | [] => True
  | (_, v) :: rest => Numberless v ∧ NumberlessFields rest

end

end Json

namespace Draft

variable {n : Nat} {cs rest : List Char} {d : Draft} {key : String}

/-- A string is read from its quote on. -/
theorem value_quote (n : Nat) (s : String) (rest : List Char) :
    value (n + 1) (quote s ++ rest) = some (.string (some s), rest) := by
  rw [quote, List.cons_append, List.append_assoc]
  show (string? _).map _ = _
  rw [List.singleton_append, string?_escaped]
  rfl

/-- Which is how the reader of an array sees that it is empty. -/
theorem value_close (n : Nat) (h : skipSpace cs = ']' :: rest) : value n cs = none := by
  cases n with
  | zero => rw [value]
  | succ n =>
    rw [value, h]
    rfl

/-- The first field follows an opening brace. -/
theorem value_brace_quote (n level : Nat) (cs : List Char) :
    value (n + 1) ('{' :: (newline level ++ (quote key ++ cs))) =
      (fields n (newline level ++ (quote key ++ cs))).map fun p => (.object p.1, p.2) := by
  apply value_brace
  intro rest hclose
  rw [skipSpace_newline] at hclose
  cases hclose

/-- A field is a key, a colon and a value; what comes behind decides whether there is another one.
-/
theorem fields_newline_quote (n level : Nat) (hd : value n cs = some (d, rest)) :
    fields (n + 1) (newline level ++ (quote key ++ ':' :: cs)) =
      match skipSpace rest with
      | '}' :: rest => some ([(some key, d)], rest)
      | ',' :: rest => (fields n rest).map fun p => ((some key, d) :: p.1, p.2)
      | _ => none := by
  have hquote : skipSpace (newline level ++ (quote key ++ ':' :: cs)) =
      '"' :: (key.toList.flatMap escapeChar ++ '"' :: ':' :: cs) := by
    rw [skipSpace_newline, quote, List.cons_append, List.append_assoc, List.singleton_append]
    rfl
  exact fields_quote hquote (string?_escaped key _) hd

mutual

/-- A value is read back from its text, whatever follows it. Each nested call is paid for by two
characters of the text. -/
theorem value_prettyAt : ∀ (v : Json) (level n : Nat) (rest : List Char), v.Numberless →
    2 * (prettyAt level v).length ≤ n → value n (prettyAt level v ++ rest) = some (ofJson v, rest)
  | .null, level, n + 1, rest, _, _ => rfl
  | .bool true, level, n + 1, rest, _, _ => rfl
  | .bool false, level, n + 1, rest, _, _ => rfl
  | .string s, level, n + 1, rest, _, _ => value_quote n s rest
  | .array [], level, n + 1, rest, _, _ => rfl
  | .object [], level, n + 1, rest, _, _ => rfl
  | .array (v :: vs), level, n + 2, rest, hv, hn => by
    simp only [prettyAt, List.length_cons, List.length_append] at hn
    -- the first item is read whatever follows it, and handed on to the items
    have hfirst := value_prettyAt v (level + 1) n
      (prettyItems (level + 1) vs ++ (newline level ++ ']' :: rest)) hv.1 (by omega)
    rw [← value_congr n (skipSpace_newline (level + 1) _)] at hfirst
    have hitems := items_prettyItems vs (level + 1) level n _ rest _ hv.2 (by omega) hfirst
    simp only [prettyAt, List.cons_append, List.append_assoc, List.nil_append]
    -- an array with an item in it is not closed at once
    have hopen := value_open (n + 1) fun rest hclose => by
      rw [value_close n hclose] at hfirst
      cases hfirst
    rw [hopen, hitems]
    rfl
  | .object ((k, v) :: fs), level, n + 2, rest, hv, hn => by
    simp only [prettyAt, List.length_cons, List.length_append] at hn
    have hfirst := value_prettyAt v (level + 1) n
      (prettyFields (level + 1) fs ++ (newline level ++ '}' :: rest)) hv.1 (by omega)
    rw [← value_congr n (skipSpace_space _)] at hfirst
    have hfields := fields_prettyFields fs (level + 1) level n k _ rest _ hv.2 (by omega) hfirst
    simp only [prettyAt, List.cons_append, List.append_assoc, List.nil_append]
    rw [value_brace_quote, hfields]
    rfl

/-- Items behind the first one, each on a line of its own. -/
theorem items_prettyItems : ∀ (vs : List Json) (level below n : Nat) (cs rest : List Char)
    (d : Draft), NumberlessItems vs → 2 * (prettyItems level vs).length ≤ n →
    value n cs = some (d, prettyItems level vs ++ (newline below ++ ']' :: rest)) →
    items (n + 1) cs = some (d :: ofItems vs, rest)
  | [], level, below, n, cs, rest, d, _, _, hd => by
    rw [items, hd]
    simp only [prettyItems, List.nil_append, skipSpace_newline]
    rfl
  | v :: vs, level, below, n + 1, cs, rest, d, hvs, hn, hd => by
    simp only [prettyItems, List.length_cons, List.length_append] at hn
    have hv := value_prettyAt v level n (prettyItems level vs ++ (newline below ++ ']' :: rest))
      hvs.1 (by omega)
    -- each item is behind a line end, which is skipped
    rw [← value_congr n (skipSpace_newline level _)] at hv
    have hrest := items_prettyItems vs level below n _ rest _ hvs.2 (by omega) hv
    rw [items, hd]
    simp only [prettyItems, List.cons_append, List.append_assoc]
    show (items (n + 1) _).map _ = _
    rw [hrest]
    rfl

/-- Fields behind the first one, as with the items. -/
theorem fields_prettyFields : ∀ (fs : List (String × Json)) (level below n : Nat) (key : String)
    (cs rest : List Char) (d : Draft), NumberlessFields fs →
    2 * (prettyFields level fs).length ≤ n →
    value n cs = some (d, prettyFields level fs ++ (newline below ++ '}' :: rest)) →
    fields (n + 1) (newline level ++ (quote key ++ ':' :: cs)) =
      some ((some key, d) :: ofFields fs, rest)
  | [], level, below, n, key, cs, rest, d, _, _, hd => by
    rw [fields_newline_quote n level hd]
    simp only [prettyFields, List.nil_append, skipSpace_newline]
    rfl
  | (k, v) :: fs, level, below, n + 1, key, cs, rest, d, hfs, hn, hd => by
    simp only [prettyFields, List.length_cons, List.length_append] at hn
    have hv := value_prettyAt v level n (prettyFields level fs ++ (newline below ++ '}' :: rest))
      hfs.1 (by omega)
    -- the blank behind the colon is skipped
    rw [← value_congr n (skipSpace_space _)] at hv
    have hrest := fields_prettyFields fs level below n k _ rest _ hfs.2 (by omega) hv
    rw [fields_newline_quote (n + 1) level hd]
    simp only [prettyFields, List.cons_append, List.append_assoc, List.nil_append]
    show (fields (n + 1) _).map _ = _
    rw [hrest]
    rfl

end

/-- The text of a value is read back. -/
theorem read?_pretty {v : Json} (hv : v.Numberless) : read? (pretty v) = some (ofJson v) := by
  have hvalue := value_prettyAt v 0 (2 * (prettyAt 0 v).length + 1) [] hv (by omega)
  rw [List.append_nil] at hvalue
  simp only [read?, ofChars?, pretty, String.toList_ofList, hvalue]
  rfl

end Draft
end EndpointDocs
