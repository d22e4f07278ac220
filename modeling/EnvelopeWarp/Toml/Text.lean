import EnvelopeWarp.Text.Digit

/-! Texts in settings tables. Between double quotes a backslash starts an escape; between single
quotes every character stands for itself. With three quotes a text may run over several lines. -/

namespace EnvelopeWarp
namespace Toml

def isBlank (c : Char) : Bool :=
  c == ' ' || c == '\t'

/-- Characters that may stand in a text or in a comment. -/
def isPrinted (c : Char) : Bool :=
  c == '\t' || (0x20 ≤ c.toNat && c.toNat != 0x7f)

/-- The text after a line break. -/
def newLine? : List Char → Option (List Char)
  | '\n' :: rest => some rest
  | '\r' :: '\n' :: rest => some rest
  | _ => none

def skipNewLine (text : List Char) : List Char :=
  (newLine? text).getD text

/-- The character with a number of so many hexadecimal digits at the front of a text. -/
def numbered? (count : Nat) (text : List Char) : Option (Char × List Char) :=
  let digits := text.take count
  let number := Text.valueOf 16 digits
  if digits.length = count ∧ digits.all (Text.isDigitOf 16) then
    if number.isValidChar then some (Char.ofNat number, text.drop count) else none
  else none

/-- The character that is escaped, from behind the backslash on. -/
def escape? : List Char → Option (Char × List Char)
  | 'b' :: rest => some ('\x08', rest)
  | 'f' :: rest => some ('\x0c', rest)
  | 'n' :: rest => some ('\n', rest)
  | 'r' :: rest => some ('\r', rest)
  | 't' :: rest => some ('\t', rest)
  | '\x22' :: rest => some ('\x22', rest)
  | '\x5c' :: rest => some ('\x5c', rest)
  | 'u' :: rest => numbered? 4 rest
  | 'U' :: rest => numbered? 8 rest
  | _ => none

theorem numbered?_length {count : Nat} {text after : List Char} {c : Char}
    (found : numbered? count text = some (c, after)) : after.length ≤ text.length := by
  simp only [numbered?] at found
  split at found
  · split at found
    · cases found; simp
    · cases found
  · cases found

theorem escape?_length {text after : List Char} {c : Char}
    (found : escape? text = some (c, after)) : after.length ≤ text.length := by
  unfold escape? at found
  split at found
  iterate 7 cases found; exact Nat.le_succ _
  iterate 2 exact Nat.le_succ_of_le (numbered?_length found)
  cases found

/-- A text on one line, from behind its double quote on. -/
def basic? (text : List Char) : Option (List Char × List Char) :=
  match text with
  | [] => none
  | c :: rest =>
    if c = '\x22' then some ([], rest)
    else if c = '\x5c' then
      match _step : escape? rest with
      | some (meant, after) => (basic? after).map fun found => (meant :: found.1, found.2)
      | none => none
    else if isPrinted c then (basic? rest).map fun found => (c :: found.1, found.2)
    else none
termination_by text.length
decreasing_by
  · have shorter := escape?_length _step
    simp only [List.length_cons]
    omega
  · simp

/-- A text on one line, from behind its single quote on. -/
def literal? : List Char → Option (List Char × List Char)
  | [] => none
  | c :: rest =>
    if c = '\x27' then some ([], rest)
    else if isPrinted c then (literal? rest).map fun found => (c :: found.1, found.2)
    else none

/-- Blanks and line breaks at the front of a text are dropped. -/
def skipLines : List Char → List Char
  | [] => []
  | '\r' :: '\n' :: rest => skipLines rest
  | c :: rest => if isBlank c || c == '\n' then skipLines rest else c :: rest

/-- A backslash at the end of a line joins the line with the next that is not empty. -/
def joined? (text : List Char) : Option (List Char) :=
  (newLine? (text.dropWhile isBlank)).map skipLines

/-- The end of a text with three quotes, from behind the first three of a run of quotes on. At most
two of the run belong to the text. -/
def closing (quote : Char) : List Char → List Char × List Char
  | a :: b :: rest =>
    if a = quote then
      if b = quote then ([quote, quote], rest) else ([quote], b :: rest)
    else ([], a :: b :: rest)
  | [a] => if a = quote then ([quote], []) else ([], [a])
  | [] => ([], [])

/-- What starts with three quotes continues after them. -/
def tripled? (quote : Char) : List Char → Option (List Char)
  | a :: b :: c :: rest => if a = quote ∧ b = quote ∧ c = quote then some rest else none
  | _ => none

theorem skipLines_length (text : List Char) : (skipLines text).length ≤ text.length := by
  fun_induction skipLines text with
  | case1 => exact Nat.le_refl _
  | case2 rest ih => simp only [List.length_cons]; omega
  | case3 c rest _ _ ih => simp only [List.length_cons]; omega
  | case4 => exact Nat.le_refl _

theorem newLine?_shorter {text after : List Char} (found : newLine? text = some after) :
    after.length < text.length := by
  unfold newLine? at found
  split at found <;> cases found <;> simp only [List.length_cons] <;> omega

theorem joined?_length {text after : List Char} (found : joined? text = some after) :
    after.length ≤ text.length := by
  obtain ⟨rest, step, same⟩ := Option.map_eq_some_iff.1 found
  cases same
  have skipped := skipLines_length rest
  have shorter := newLine?_shorter step
  have dropped := (List.dropWhile_sublist (l := text) isBlank).length_le
  omega

/-- A text over several lines, from behind its three double quotes on. -/
def block? (text : List Char) : Option (List Char × List Char) :=
  match tripled? '\x22' text with
  | some after => some (closing '\x22' after)
  | none =>
    match text with
    | [] => none
    | c :: rest =>
      if c = '\x5c' then
        match _join : joined? rest with
        | some after => block? after
        | none =>
          match _step : escape? rest with
          | some (meant, after) => (block? after).map fun found => (meant :: found.1, found.2)
          | none => none
      else if isPrinted c then (block? rest).map fun found => (c :: found.1, found.2)
      else
        match _line : newLine? (c :: rest) with
        | some after => (block? after).map fun found => ('\n' :: found.1, found.2)
        | none => none
termination_by text.length
decreasing_by
  · have shorter := joined?_length _join
    simp only [List.length_cons]
    omega
  · have shorter := escape?_length _step
    simp only [List.length_cons]
    omega
  · simp
  · exact newLine?_shorter _line

/-- A text over several lines, from behind its three single quotes on. -/
def literalBlock? (text : List Char) : Option (List Char × List Char) :=
  match tripled? '\x27' text with
  | some after => some (closing '\x27' after)
  | none =>
    match text with
    | [] => none
    | c :: rest =>
      if isPrinted c then (literalBlock? rest).map fun found => (c :: found.1, found.2)
      else
        match _line : newLine? (c :: rest) with
        | some after => (literalBlock? after).map fun found => ('\n' :: found.1, found.2)
        | none => none
termination_by text.length
decreasing_by
  · simp
  · exact newLine?_shorter _line

/-- A text in any of the four notations. A line break right behind three quotes is no part of it. -/
def text? (text : List Char) : Option (List Char × List Char) :=
  match tripled? '\x22' text with
  | some rest => block? (skipNewLine rest)
  | none =>
    match tripled? '\x27' text with
    | some rest => literalBlock? (skipNewLine rest)
    | none =>
      match text with
      | '\x22' :: rest => basic? rest
      | '\x27' :: rest => literal? rest
      | _ => none

end Toml
end EnvelopeWarp
