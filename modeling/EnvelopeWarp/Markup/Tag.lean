import EnvelopeWarp.Markup.Reading
import EnvelopeWarp.Markup.Reference
import EnvelopeWarp.Text.Blank

/-! Tags and their attributes. A tag is kept as it was written; its attributes are read from what
follows its name. -/

namespace EnvelopeWarp

/-- Why the attributes of a tag are not accepted. Places are distances in bytes from the start of
the tag's name. -/
inductive AttributeFault where
  | noEquals (position : Nat)
  | noValue (position : Nat)
  | noQuotes (position : Nat)
  | openQuote (position : Nat) (quote : Char)
  | repeated (position previous : Nat)
deriving Repr, DecidableEq

namespace AttributeFault

def place (position : Nat) : String :=
  "position " ++ toString position ++ ": "

def message : AttributeFault → String
  | noEquals position => place position ++
    "attribute key must be directly followed by \x60=\x60 or space"
  | noValue position => place position ++ "\x60=\x60 must be followed by an attribute value"
  | noQuotes position => place position ++ "attribute value must be enclosed in \x60\x22\x60 or \x60'\x60"
  | openQuote position quote => place position ++ "missing closing quote \x60" ++ quote.toString ++
    "\x60 in attribute value"
  | repeated position previous => place position ++
    "duplicated attribute, previous declaration at position " ++ toString previous

end AttributeFault

/-- A name and the value as it stands between its quotes. -/
structure Attribute where
  key : List Char
  raw : List Char
deriving Repr, DecidableEq

namespace Attribute

/-- A value between double quotes cannot hold one, so a double quote is written by its name. -/
def requoteChar (c : Char) : List Char :=
  if c = '\x22' then Reference.escapeChar c else [c]

/-- An attribute as it is written in a tag. -/
def text (item : Attribute) : List Char :=
  ' ' :: item.key ++ '=' :: '\x22' :: item.raw.flatMap requoteChar ++ ['\x22']

def value (item : Attribute) : Except ReferenceFault (List Char) :=
  Reference.unescape item.raw

/-- The attribute with a given value. -/
def ofValue (key value : List Char) : Attribute :=
  ⟨key, Reference.escape value⟩

end Attribute

/-- A tag without its brackets: its name, and what follows the name. -/
structure Tag where
  name : List Char
  tail : List Char
deriving Repr, DecidableEq

namespace Tag

/-- The name of a tag ends at the first blank. -/
def ofText (text : List Char) : Tag :=
  ⟨text.takeWhile fun c => !Text.isMarkupBlank c, text.dropWhile fun c => !Text.isMarkupBlank c⟩

def text (tag : Tag) : List Char :=
  tag.name ++ tag.tail

/-- The name without the name space that stands before a colon. -/
def localName (tag : Tag) : List Char :=
  match tag.name.dropWhile (· != ':') with
  | ':' :: rest => rest
  | _ => tag.name

def skipBlanks (text : List Char) : List Char :=
  text.dropWhile Text.isMarkupBlank

def isKeyEnd (c : Char) : Bool :=
  c == '=' || Text.isMarkupBlank c

/-- Splits a text at the first character that is the given one, which belongs to neither part. -/
def splitAt? (mark : Char) : List Char → Option (List Char × List Char)
  | [] => none
  | c :: rest =>
    if c = mark then some ([], rest)
    else (splitAt? mark rest).map fun parts => (c :: parts.1, parts.2)

theorem splitAt?_append {mark : Char} {text before after : List Char}
    (found : splitAt? mark text = some (before, after)) : text = before ++ mark :: after := by
  induction text generalizing before with
  | nil => cases found
  | cons c rest ih =>
    simp only [splitAt?] at found
    split at found
    · next same => cases found; simp [same]
    · obtain ⟨⟨first, last⟩, step, same⟩ := Option.map_eq_some_iff.1 found
      cases same
      simp [ih step]

/-- The quoted value at the front of a text that ends `total` bytes into the tag, and what follows
it. -/
def takeValue (total : Nat) (text : List Char) : Except AttributeFault (List Char × List Char) :=
  match skipBlanks text with
  | [] => .error (.noValue total)
  | quote :: rest =>
    if quote = '\x22' ∨ quote = '\x27' then
      match splitAt? quote rest with
      | some parts => .ok parts
      | none => .error (.openQuote total quote)
    else .error (.noQuotes (total - Text.byteLength (quote :: rest)))

/-- Names of attributes with the places where they stand. -/
abbrev Seen : Type :=
  List (List Char × Nat)

/-- One attribute from the first character of its name on, and what follows it. The first character
belongs to the name whatever it is, and a name that was seen before is refused. -/
def takeAttribute (total : Nat) (seen : Seen) (first : Char) (rest : List Char) :
    Except AttributeFault (Attribute × List Char) :=
  let key := first :: rest.takeWhile fun c => !isKeyEnd c
  let start := total - Text.byteLength (first :: rest)
  match skipBlanks (rest.dropWhile fun c => !isKeyEnd c) with
  | '=' :: after =>
    match seen.lookup key with
    | some previous => .error (.repeated start previous)
    | none =>
      match takeValue total after with
      | .ok (raw, after) => .ok (⟨key, raw⟩, after)
      | .error fault => .error fault
  | after => .error (.noEquals (total - Text.byteLength after))

theorem length_skipBlanks_le (text : List Char) : (skipBlanks text).length ≤ text.length :=
  (List.dropWhile_sublist _).length_le

theorem takeValue_shorter {total : Nat} {text raw after : List Char}
    (found : takeValue total text = .ok (raw, after)) : after.length < text.length := by
  have skipped := length_skipBlanks_le text
  simp only [takeValue] at found
  split at found
  · cases found
  next quote rest same =>
  rw [same] at skipped
  split at found
  · split at found
    · next parts split_ =>
      cases found
      have whole := congrArg List.length (splitAt?_append split_)
      simp only [List.length_append, List.length_cons] at whole skipped
      omega
    · cases found
  · cases found

/-- An attribute takes at least its name's first character. -/
theorem takeAttribute_shorter {total : Nat} {seen : Seen} {first : Char} {rest after : List Char}
    {item : Attribute} (found : takeAttribute total seen first rest = .ok (item, after)) :
    after.length < (first :: rest).length := by
  have dropped := (List.dropWhile_sublist (l := rest) fun c => !isKeyEnd c).length_le
  have skipped := length_skipBlanks_le (rest.dropWhile fun c => !isKeyEnd c)
  simp only [takeAttribute] at found
  split at found
  · next same =>
    rw [same] at skipped
    split at found
    · cases found
    · split at found
      · next value =>
        cases found
        have shorter := takeValue_shorter value
        simp only [List.length_cons] at skipped ⊢
        omega
      · cases found
  · cases found

/-- The attributes in the end of a tag that is `total` bytes long. -/
def attributesFrom (total : Nat) (seen : Seen) (text : List Char) : Reading Attribute AttributeFault :=
  match _ahead : skipBlanks text with
  | [] => .finished
  | first :: rest =>
    match _step : takeAttribute total seen first rest with
    | .error fault => .stopped fault
    | .ok (item, after) =>
      (attributesFrom total ((item.key, total - Text.byteLength (first :: rest)) :: seen) after).cons
        item
termination_by text.length
decreasing_by
  have shorter := takeAttribute_shorter _step
  have skipped := length_skipBlanks_le text
  rw [_ahead] at skipped
  omega

/-- The attributes of a tag in the order in which they stand. -/
def attributes (tag : Tag) : Reading Attribute AttributeFault :=
  attributesFrom (Text.byteLength tag.text) [] tag.tail

/-- The tag with a name and attributes. -/
def ofAttributes (name : List Char) (attributes : List Attribute) : Tag :=
  ⟨name, attributes.flatMap Attribute.text⟩

end Tag
end EnvelopeWarp
