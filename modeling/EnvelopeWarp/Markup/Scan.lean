import EnvelopeWarp.Markup.Event
import EnvelopeWarp.Text.Match

/-! Reading markup into events. Events follow each other without a gap; closing tags must match the
elements that are open, and elements may be left open at the end. -/

namespace EnvelopeWarp

/-- Why a text is not markup. -/
inductive MarkupFault where
  | openTag
  | openComment
  | openData
  | openDoctype
  | openInstruction
  | unknownMarkup
  | mismatched (expected found : List Char)
  | unmatched (name : List Char)
  | namelessDoctype
  | openReference
deriving Repr, DecidableEq

namespace MarkupFault

def unended (what mark : String) : String :=
  what ++ " not closed: \x60" ++ mark ++ "\x60 not found before end of input"

def tagText (name : List Char) : String :=
  "\x60</" ++ String.ofList name ++ ">\x60"

/-- The kind of a fault: the marks are wrong, or what they mark does not fit together. -/
def heading : MarkupFault → String
  | mismatched _ _ => "ill-formed document"
  | unmatched _ => "ill-formed document"
  | namelessDoctype => "ill-formed document"
  | openReference => "ill-formed document"
  | _ => "syntax error"

def detail : MarkupFault → String
  | openTag => unended "tag" ">"
  | openComment => unended "comment" "-->"
  | openData => unended "CDATA" "]]>"
  | openDoctype => unended "DOCTYPE" ">"
  | openInstruction => unended "processing instruction or xml declaration" "?>"
  | unknownMarkup => "unknown or missed symbol in markup"
  | mismatched expected found =>
    "expected " ++ tagText expected ++ ", but " ++ tagText found ++ " was found"
  | unmatched name => "close tag " ++ tagText name ++ " does not match any open tag"
  | namelessDoctype => "\x60<!DOCTYPE>\x60 declaration does not contain a name of a document type"
  | openReference => unended "entity or character reference" ";"

def message (fault : MarkupFault) : String :=
  fault.heading ++ ": " ++ fault.detail

end MarkupFault

namespace Event

/-- Splits a text at the first place where the mark stands. -/
def until? (mark : List Char) : List Char → Option (List Char × List Char)
  | [] => none
  | c :: rest =>
    match Text.dropFront? mark (c :: rest) with
    | some after => some ([], after)
    | none => (until? mark rest).map fun parts => (c :: parts.1, parts.2)

/-- The quote that is open after a character, given the one that was open before it. -/
def quoteAfter (quote : Option Char) (c : Char) : Option Char :=
  match quote with
  | none => if c = '\x22' ∨ c = '\x27' then some c else none
  | some mark => if c = mark then none else some mark

/-- Splits a text at the first closing bracket outside quotes. -/
def untilUnquoted? : Option Char → List Char → Option (List Char × List Char)
  | _, [] => none
  | quote, c :: rest =>
    if quote = none ∧ c = '>' then some ([], rest)
    else (untilUnquoted? (quoteAfter quote c) rest).map fun parts => (c :: parts.1, parts.2)

/-- Splits a text at the first closing bracket that closes none of the brackets opened in it. -/
def untilBalanced? : Nat → List Char → Option (List Char × List Char)
  | _, [] => none
  | depth, c :: rest =>
    if c = '>' then
      match depth with
      | 0 => some ([], rest)
      | outer + 1 => (untilBalanced? outer rest).map fun parts => (c :: parts.1, parts.2)
    else
      (untilBalanced? (if c = '<' then depth + 1 else depth) rest).map fun parts => (c :: parts.1, parts.2)

/-- Blanks at the end of a closing tag are no part of its name, unless there is nothing else. -/
def closingName (content : List Char) : List Char :=
  let name := (content.reverse.dropWhile Text.isMarkupBlank).reverse
  if name.isEmpty then content else name

/-- A tag from behind its opening bracket on. A slash at its end makes it a single tag. -/
def takeElement (text : List Char) : Except MarkupFault (Event × List Char) :=
  match untilUnquoted? none text with
  | none => .error .openTag
  | some (content, after) =>
    if content.getLast? = some '/' then .ok (.single (Tag.ofText content.dropLast), after)
    else .ok (.opening (Tag.ofText content), after)

def takeClosing (text : List Char) : Except MarkupFault (Event × List Char) :=
  match untilUnquoted? none text with
  | none => .error .openTag
  | some (content, after) => .ok (.closing (closingName content), after)

def takeComment (text : List Char) : Except MarkupFault (Event × List Char) :=
  match until? "-->".toList text with
  | none => .error .openComment
  | some (content, after) => .ok (.comment content, after)

def takeData (text : List Char) : Except MarkupFault (Event × List Char) :=
  match until? "]]>".toList text with
  | none => .error .openData
  | some (content, after) => .ok (.data content, after)

def takeDoctype (text : List Char) : Except MarkupFault (Event × List Char) :=
  match untilBalanced? 0 text with
  | none => .error .openDoctype
  | some (content, after) =>
    match Tag.skipBlanks content with
    | [] => .error .namelessDoctype
    | named => .ok (.doctype named, after)

/-- An instruction holds at least nothing between its two marks, which do not overlap. -/
def takeInstruction (text : List Char) : Except MarkupFault (Event × List Char) :=
  if text.head? = some '>' then .error .openInstruction
  else
    match until? "?>".toList text with
    | none => .error .openInstruction
    | some (content, after) => .ok (.instruction content, after)

/-- What an exclamation mark announces is told by the next character, and then must be spelled out
in full; only the document type may be in any case. -/
def takeDeclaration (text : List Char) : Except MarkupFault (Event × List Char) :=
  match text with
  | '-' :: rest =>
    match rest with
    | '-' :: content => takeComment content
    | _ => .error .openComment
  | '[' :: rest =>
    match Text.dropFront? "CDATA[".toList rest with
    | some content => takeData content
    | none => .error .openData
  | c :: rest =>
    if c = 'D' ∨ c = 'd' then
      if Text.spells "octype" (rest.take 6) then takeDoctype (rest.drop 6) else .error .openDoctype
    else .error .unknownMarkup
  | [] => .error .unknownMarkup

/-- Markup from behind its opening bracket on. -/
def takeMarkup (text : List Char) : Except MarkupFault (Event × List Char) :=
  match text with
  | '!' :: rest => takeDeclaration rest
  | '/' :: rest => takeClosing rest
  | '?' :: rest => takeInstruction rest
  | _ => takeElement text

def isReferenceEnd (c : Char) : Bool :=
  c == ';' || c == '&' || c == '<'

def takeReference (text : List Char) : Except MarkupFault (Event × List Char) :=
  match text.dropWhile fun c => !isReferenceEnd c with
  | ';' :: after => .ok (.reference (text.takeWhile fun c => !isReferenceEnd c), after)
  | _ => .error .openReference

def isTextEnd (c : Char) : Bool :=
  c == '<' || c == '&'

/-- The event that starts with a character, and the text after it. -/
def take (first : Char) (rest : List Char) : Except MarkupFault (Event × List Char) :=
  if first = '<' then takeMarkup rest
  else if first = '&' then takeReference rest
  else .ok (.text (first :: rest.takeWhile fun c => !isTextEnd c), rest.dropWhile fun c => !isTextEnd c)

/-- A reader that leaves no more text than it was given. -/
private def Keeps (read : List Char → Except MarkupFault (Event × List Char)) : Prop :=
  ∀ text event after, read text = .ok (event, after) → after.length ≤ text.length

private theorem until?_length {mark text content after : List Char}
    (found : until? mark text = some (content, after)) : after.length ≤ text.length := by
  induction text generalizing content with
  | nil => cases found
  | cons c rest ih =>
    simp only [until?] at found
    split at found
    · next step => cases found; exact Text.dropFront?_length step
    · obtain ⟨⟨first, last⟩, step, same⟩ := Option.map_eq_some_iff.1 found
      cases same
      exact Nat.le_succ_of_le (ih step)

private theorem untilUnquoted?_length {quote : Option Char} {text content after : List Char}
    (found : untilUnquoted? quote text = some (content, after)) : after.length ≤ text.length := by
  induction text generalizing quote content with
  | nil => cases found
  | cons c rest ih =>
    simp only [untilUnquoted?] at found
    split at found
    · cases found; exact Nat.le_succ _
    · obtain ⟨⟨first, last⟩, step, same⟩ := Option.map_eq_some_iff.1 found
      cases same
      exact Nat.le_succ_of_le (ih step)

private theorem untilBalanced?_length {depth : Nat} {text content after : List Char}
    (found : untilBalanced? depth text = some (content, after)) : after.length ≤ text.length := by
  induction text generalizing depth content with
  | nil => cases found
  | cons c rest ih =>
    simp only [untilBalanced?] at found
    split at found
    · split at found
      · cases found; exact Nat.le_succ _
      · obtain ⟨⟨first, last⟩, step, same⟩ := Option.map_eq_some_iff.1 found
        cases same
        exact Nat.le_succ_of_le (ih step)
    · obtain ⟨⟨first, last⟩, step, same⟩ := Option.map_eq_some_iff.1 found
      cases same
      exact Nat.le_succ_of_le (ih step)

private theorem keeps_element : Keeps takeElement := by
  intro text event after found
  simp only [takeElement] at found
  split at found
  · cases found
  · next content rest step => split at found <;> cases found <;> exact untilUnquoted?_length step

private theorem keeps_closing : Keeps takeClosing := by
  intro text event after found
  simp only [takeClosing] at found
  split at found
  · cases found
  · next step => cases found; exact untilUnquoted?_length step

private theorem keeps_comment : Keeps takeComment := by
  intro text event after found
  simp only [takeComment] at found
  split at found
  · cases found
  · next step => cases found; exact until?_length step

private theorem keeps_data : Keeps takeData := by
  intro text event after found
  simp only [takeData] at found
  split at found
  · cases found
  · next step => cases found; exact until?_length step

private theorem keeps_doctype : Keeps takeDoctype := by
  intro text event after found
  simp only [takeDoctype] at found
  split at found
  · cases found
  · next step =>
    split at found
    · cases found
    · cases found; exact untilBalanced?_length step

private theorem keeps_instruction : Keeps takeInstruction := by
  intro text event after found
  simp only [takeInstruction] at found
  split at found
  · cases found
  · split at found
    · cases found
    · next step => cases found; exact until?_length step

private theorem keeps_declaration : Keeps takeDeclaration := by
  intro text event after found
  unfold takeDeclaration at found
  split at found
  · split at found
    · have shorter := keeps_comment _ _ _ found
      simp only [List.length_cons]
      omega
    · cases found
  · split at found
    · next step =>
      have shorter := keeps_data _ _ _ found
      have rest := Text.dropFront?_length step
      simp only [List.length_cons]
      omega
    · cases found
  · split at found
    · split at found
      · have shorter := keeps_doctype _ _ _ found
        simp only [List.length_drop] at shorter
        simp only [List.length_cons]
        omega
      · cases found
    · cases found
  · cases found

private theorem keeps_markup : Keeps takeMarkup := by
  intro text event after found
  unfold takeMarkup at found
  split at found
  · exact Nat.le_succ_of_le (keeps_declaration _ _ _ found)
  · exact Nat.le_succ_of_le (keeps_closing _ _ _ found)
  · exact Nat.le_succ_of_le (keeps_instruction _ _ _ found)
  · exact keeps_element _ _ _ found

private theorem keeps_reference : Keeps takeReference := by
  intro text event after found
  have dropped := (List.dropWhile_sublist (l := text) fun c => !isReferenceEnd c).length_le
  simp only [takeReference] at found
  split at found
  · next same =>
    cases found
    rw [same, List.length_cons] at dropped
    omega
  · cases found

/-- An event takes at least its first character. -/
theorem take_shorter {first : Char} {rest after : List Char} {event : Event}
    (found : take first rest = .ok (event, after)) : after.length < (first :: rest).length := by
  unfold take at found
  split at found
  · exact Nat.lt_succ_of_le (keeps_markup _ _ _ found)
  · split at found
    · exact Nat.lt_succ_of_le (keeps_reference _ _ _ found)
    · cases found
      exact Nat.lt_succ_of_le (List.dropWhile_sublist _).length_le

/-- The events of a text as far as it can be cut into events. -/
def split (text : List Char) : Reading Event MarkupFault :=
  match text with
  | [] => .finished
  | first :: rest =>
    match _step : take first rest with
    | .error fault => .stopped fault
    | .ok (event, after) => (split after).cons event
termination_by text.length
decreasing_by exact take_shorter _step

/-- The names of the open elements after an event, the innermost first. -/
def nest (opened : List (List Char)) : Event → Except MarkupFault (List (List Char))
  | opening tag => .ok (tag.name :: opened)
  | closing name =>
    match opened with
    | [] => .error (.unmatched name)
    | expected :: outer =>
      if expected = name then .ok outer else .error (.mismatched expected name)
  | _ => .ok opened

/-- A mark of the byte order at the start of a text is no part of it. -/
def dropOrderMark : List Char → List Char
  | c :: rest => if c = '\ufeff' then rest else c :: rest
  | [] => []

/-- The events of a text up to its end or to the first fault. -/
def scan (text : List Char) : Reading Event MarkupFault :=
  let events := split (dropOrderMark text)
  Reading.admitted nest events.fault [] events.items

end Event
end EnvelopeWarp
