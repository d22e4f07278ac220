/-! Comparing a text, or its front, with a mark or a name. Names are written in basic Latin letters, so
where case does not count only the characters whose lower case is such a letter matter: the capitals
themselves and the Kelvin sign, whose lower case is `k`. -/

namespace EnvelopeWarp
namespace Text

def foldChar (c : Char) : Char :=
  if c == '\u212a' then 'k' else c.toLower

def fold (text : List Char) : List Char :=
  text.map foldChar

/-- The text is the name, in any case. -/
def names (name : String) (text : String) : Bool :=
  fold text.toList == name.toList

/-- The text is the name in any case of the basic Latin letters alone. -/
def spells (name : String) (text : List Char) : Bool :=
  text.map Char.toLower == name.toList

/-- What follows a mark, if the text starts with it. -/
def dropFront? : List Char → List Char → Option (List Char)
  | [], text => some text
  | _ :: _, [] => none
  | c :: mark, d :: text => if c = d then dropFront? mark text else none

/-- A text that starts with a mark is the mark and what follows it. -/
theorem dropFront?_eq_some {mark text after : List Char} :
    dropFront? mark text = some after ↔ text = mark ++ after := by
  induction mark generalizing text with
  | nil => simp [dropFront?]
  | cons c mark ih =>
    cases text with
    | nil => simp [dropFront?]
    | cons d text =>
      by_cases same : c = d
      · simp [dropFront?, same, ih]
      · simp [dropFront?, same, Ne.symm same]

theorem dropFront?_length {mark text after : List Char} (found : dropFront? mark text = some after) :
    after.length ≤ text.length := by
  rw [dropFront?_eq_some.1 found, List.length_append]
  exact Nat.le_add_left _ _

end Text
end EnvelopeWarp
