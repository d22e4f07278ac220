/-! Lengths and cuts of texts in bytes of UTF-8. A text can be cut where one of its characters starts and
at its end, but nowhere else. -/

namespace EnvelopeWarp
namespace Text

/-- The length of a text in UTF-8. -/
def byteLength : List Char → Nat
  | [] => 0
  | c :: rest => c.utf8Size + byteLength rest

theorem byteLength_append (first second : List Char) :
    byteLength (first ++ second) = byteLength first + byteLength second := by
  induction first with
  | nil => simp [byteLength]
  | cons c rest ih => simp [byteLength, ih, Nat.add_assoc]

/-- The two parts of a text of which the first has so many bytes. -/
def splitBytes? (bytes : Nat) : List Char → Option (List Char × List Char)
  | [] => if bytes = 0 then some ([], []) else none
  | c :: rest =>
    if bytes = 0 then some ([], c :: rest)
    else if c.utf8Size ≤ bytes then
      (splitBytes? (bytes - c.utf8Size) rest).map fun parts => (c :: parts.1, parts.2)
    else none

theorem splitBytes?_append (first second : List Char) :
    splitBytes? (byteLength first) (first ++ second) = some (first, second) := by
  induction first with
  | nil => cases second <;> rfl
  | cons c first ih =>
    have wide := Nat.ne_of_gt c.utf8Size_pos
    simp [splitBytes?, byteLength, wide, ih]

/-- The part of a text between two places. -/
def slice? (start finish : Nat) (text : List Char) : Option (List Char) := do
  let behind ← splitBytes? start text
  let part ← splitBytes? (finish - start) behind.2
  return part.1

/-- The part of a text from a place on. -/
def sliceFrom? (start : Nat) (text : List Char) : Option (List Char) :=
  (splitBytes? start text).map Prod.snd

end Text
end EnvelopeWarp
