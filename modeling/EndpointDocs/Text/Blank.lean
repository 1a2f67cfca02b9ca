/-!
# White space and trimming

Annotation text is compared and stored without the white space around it. White space is the Unicode
property `White_Space`: twenty-five characters, far more than the six of `Char.isWhitespace`.

`trim` drops the blank characters at both ends and nothing else: what is left starts and ends with
a character that is not blank (`head_dropBlanks`), and it is a middle piece of the text
(`trimChars_append`).
-/

namespace EndpointDocs.Text

/-- Membership in the Unicode property `White_Space`. -/
def isBlank (c : Char) : Bool :=
  let n := c.toNat
  (9 ≤ n && n ≤ 13) || n == 0x20 || n == 0x85 || n == 0xA0 || n == 0x1680 ||
    (0x2000 ≤ n && n ≤ 0x200A) || n == 0x2028 || n == 0x2029 || n == 0x202F || n == 0x205F ||
    n == 0x3000

def dropBlanks (cs : List Char) : List Char := cs.dropWhile isBlank

def trimChars (cs : List Char) : List Char := (dropBlanks (dropBlanks cs).reverse).reverse

def trim (s : String) : String := String.ofList (trimChars s.toList)

/-- What is left after dropping leading blanks does not start with one. -/
theorem head_dropBlanks {cs : List Char} {c : Char} {rest : List Char}
    (h : dropBlanks cs = c :: rest) : isBlank c = false := by
  induction cs with
  | nil => simp [dropBlanks] at h
  | cons a as ih =>
    by_cases ha : isBlank a = true
    · exact ih (by simpa [dropBlanks, List.dropWhile_cons, ha] using h)
    · have : a = c := by
        have h' : a :: as = c :: rest := by simpa [dropBlanks, List.dropWhile_cons, ha] using h
        exact (List.cons.inj h').1
      simpa [← this] using ha

/-- Dropping leading blanks leaves a final piece of the text. -/
theorem dropBlanks_append (cs : List Char) : cs.takeWhile isBlank ++ dropBlanks cs = cs :=
  List.takeWhile_append_dropWhile

/-- The trimmed text is a middle piece of the text. -/
theorem trimChars_append (cs : List Char) :
    cs.takeWhile isBlank ++ trimChars cs ++ ((dropBlanks cs).reverse.takeWhile isBlank).reverse
      = cs := by
  have h := congrArg List.reverse (dropBlanks_append (dropBlanks cs).reverse)
  rw [List.reverse_append, List.reverse_reverse] at h
  rw [List.append_assoc,
    show trimChars cs = (dropBlanks (dropBlanks cs).reverse).reverse from rfl, h, dropBlanks_append]

/-- A text that starts with a character that is not blank keeps it. -/
theorem dropBlanks_of_head {cs : List Char}
    (h : ∀ c rest, cs = c :: rest → isBlank c = false) : dropBlanks cs = cs := by
  cases cs with
  | nil => rfl
  | cons c rest => exact List.dropWhile_cons_of_neg (by rw [h c rest rfl]; exact Bool.false_ne_true)

/-- There is nothing left to trim. -/
theorem trimChars_trimChars (cs : List Char) : trimChars (trimChars cs) = trimChars cs := by
  have hend : dropBlanks (trimChars cs).reverse = (trimChars cs).reverse := by
    refine dropBlanks_of_head fun c rest h => ?_
    rw [trimChars, List.reverse_reverse] at h
    exact head_dropBlanks h
  have hstart : dropBlanks (trimChars cs) = trimChars cs := by
    refine dropBlanks_of_head fun c rest h => ?_
    -- the trimmed text is the first piece of what is left without leading blanks
    have hpiece := trimChars_append cs
    rw [h, List.append_assoc] at hpiece
    exact head_dropBlanks (List.append_cancel_left (hpiece.trans (dropBlanks_append cs).symm)).symm
  rw [trimChars, hstart, hend, List.reverse_reverse]

theorem trim_trim (s : String) : trim (trim s) = trim s := by
  rw [trim, trim, String.toList_ofList, trimChars_trimChars]

end EndpointDocs.Text
