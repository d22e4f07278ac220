import EnvelopeWarp.Json.Reader
import EnvelopeWarp.Json.Writer
import EnvelopeWarp.Proofs.DoubleText

/-! Numbers in structured data. A number is written as a literal, with a point or with a power of ten, that is taken
back as one token; what it is read as is a question of its own. -/

namespace EnvelopeWarp
namespace Json

theorem isNumber_eq {literal : Literal} (sign : literal.sign ≠ some '+') (some_digit : literal.whole ≠ [])
    (leads : literal.whole.head? = some '0' → literal.whole.length = 1) (fraction : literal.fraction ≠ some []) :
    isNumber literal = true := by
  unfold isNumber
  simp only [Bool.and_eq_true, bne_iff_ne]
  refine ⟨⟨sign, ?_⟩, fraction⟩
  split
  · next none_left => exact absurd none_left some_digit
  · next zero =>
    rw [zero] at leads
    simpa using leads rfl
  · rfl

/-- A number starts with a digit or a minus. -/
theorem isNumber_starts {literal : Literal} (sound : literal.Sound) (number : isNumber literal = true) :
    ∃ first rest, literal.text = first :: rest ∧ (first.isDigit = true ∨ first = '-') := by
  obtain ⟨sign, whole, fraction, power⟩ := literal
  unfold isNumber at number
  simp only [Bool.and_eq_true, bne_iff_ne] at number
  obtain ⟨⟨unsigned, some_digit⟩, _⟩ := number
  cases sign with
  | some mark =>
    have signed := sound.sign mark rfl
    simp only [isSign, Bool.or_eq_true, beq_iff_eq] at signed
    rcases signed with rfl | rfl
    · exact absurd rfl unsigned
    · exact ⟨'-', _, rfl, .inr rfl⟩
  | none =>
    cases whole with
    | nil => cases some_digit
    | cons c whole => exact ⟨c, _, rfl, .inl (sound.whole c (.head _))⟩

/-- One digit, the others behind a point, and a power of ten. -/
def scientificLiteral (negative : Bool) (digits : Nat) (leading : Int) : Literal :=
  ⟨if negative then some '-' else none, (decimalDigits digits).take 1,
    if (decimalDigits digits).drop 1 = [] then none else some ((decimalDigits digits).drop 1),
    some ⟨'e', some (if leading < 0 then '-' else '+'), decimalDigits leading.natAbs⟩⟩

section Scientific
variable (negative : Bool) (digits : Nat) (leading : Int)

private theorem scientificLiteral_text : (scientificLiteral negative digits leading).text =
    signText negative ++ Layout.scientific digits leading := by
  unfold scientificLiteral Layout.scientific
  rcases decimalDigits digits with _ | ⟨first, _ | ⟨second, rest⟩⟩
  all_goals cases negative <;> simp [Literal.text, signText, Literal.fractionText, Power.text]

private theorem scientificLiteral_sound : (scientificLiteral negative digits leading).Sound := by
  have written : decimalDigits digits ≠ [] := Nat.toDigits_ne_nil
  refine ⟨?_, fun c member => isDigit_of_mem_decimalDigits (List.mem_of_mem_take member), ?_, ?_, ?_⟩
  · cases negative <;> simp [scientificLiteral, isSign]
  · intro fraction split_ c member
    simp only [scientificLiteral] at split_
    split at split_
    · cases split_
    · cases split_
      exact isDigit_of_mem_decimalDigits (List.mem_of_mem_drop member)
  · refine List.append_ne_nil_of_left_ne_nil ?_ _
    simpa [scientificLiteral] using written
  · intro power same
    obtain rfl := Option.some.inj same
    refine ⟨.inl rfl, ?_, Nat.toDigits_ne_nil, fun c => isDigit_of_mem_decimalDigits⟩
    intro c sign
    obtain rfl := Option.some.inj sign
    split <;> rfl

private theorem isNumber_scientificLiteral : isNumber (scientificLiteral negative digits leading) = true := by
  have written : decimalDigits digits ≠ [] := Nat.toDigits_ne_nil
  have some_digit : 0 < (decimalDigits digits).length := List.length_pos_of_ne_nil written
  apply isNumber_eq
  · cases negative <;> simp [scientificLiteral]
  · simpa [scientificLiteral] using written
  · intro
    simp only [scientificLiteral, List.length_take]
    omega
  · unfold scientificLiteral
    simp only
    split
    · nofun
    · next filled => exact fun same => filled (Option.some.inj same)

end Scientific

private theorem isNumber_pointedLiteral (negative : Bool) (digits : Nat) (exponent : Int) :
    isNumber ((Positional.ofDigits digits exponent).pointedLiteral negative) = true := by
  obtain ⟨fraction, some_fraction, _, _, literal⟩ := (Positional.sound_ofDigits digits exponent).exists_pointed
  rw [literal]
  refine isNumber_eq ?_ (Positional.whole_ofDigits digits exponent) (Positional.head_ofDigits digits exponent) ?_
  · cases negative <;> simp
  · exact fun same => some_fraction (Option.some.inj same)

/-- A literal that can stand for a number is what a finite double is written as. -/
theorem structured_text {x : Float} (finite : x.isFinite = true) : ∃ literal : Literal, literal.Sound ∧
    isNumber literal = true ∧ Layout.structured.text x = literal.text := by
  have inside := (Double.isFinite_iff x).mp finite
  unfold Layout.text
  rw [if_neg (by omega), if_neg (by omega)]
  unfold Layout.structured
  simp only
  split
  · exact ⟨_, (Positional.sound_ofDigits _ _).pointedLiteral _, isNumber_pointedLiteral _ _ _,
      (Positional.pointedLiteral_text _ _).symm⟩
  · exact ⟨_, scientificLiteral_sound _ _ _, isNumber_scientificLiteral _ _ _,
      (scientificLiteral_text _ _ _).symm⟩

/-- There is no other notation for a double than that of a finite one. -/
theorem structured_text_of_not_finite {x : Float} (unbounded : ¬x.isFinite = true) :
    Layout.structured.text x = nothingText := by
  have outside := mt (Double.isFinite_iff x).mpr unbounded
  unfold Layout.text
  split
  · rfl
  · rw [if_pos (by omega)]
    rfl

/-- The literal of a number without point and power. -/
def wholeLiteral (value : Int) : Literal :=
  ⟨if value < 0 then some '-' else none, decimalDigits value.natAbs, none, none⟩

section Whole
variable {value : Int}

theorem wholeLiteral_text : (wholeLiteral value).text = wholeText value := by
  by_cases negative : value < 0 <;>
    simp [wholeLiteral, wholeText, Literal.text, Literal.fractionText, signText, negative]

theorem wholeLiteral_sound : (wholeLiteral value).Sound := by
  refine ⟨?_, fun c => isDigit_of_mem_decimalDigits, nofun,
    List.append_ne_nil_of_left_ne_nil Nat.toDigits_ne_nil _, nofun⟩
  intro c sign
  simp only [wholeLiteral] at sign
  split at sign
  · obtain rfl := Option.some.inj sign
    rfl
  · cases sign

theorem isNumber_wholeLiteral : isNumber (wholeLiteral value) = true := by
  refine isNumber_eq ?_ Nat.toDigits_ne_nil ?_ nofun
  · unfold wholeLiteral
    simp only
    split <;> simp
  · intro zero
    rcases Nat.eq_zero_or_pos value.natAbs with none_left | positive
    · unfold wholeLiteral
      rw [none_left]
      rfl
    · exact absurd zero (head_decimalDigits positive)

/-- Numbers of eight bytes, with a sign or without, are read as they are. -/
theorem number_wholeLiteral (small : value < wordLimit) (large : -(wordLimit : Int) ≤ 2 * value) :
    number (wholeLiteral value) = .whole value := by
  unfold number wholeLiteral
  by_cases negative : value < 0
  · have fits : 0 < value.natAbs ∧ 2 * value.natAbs ≤ wordLimit := by omega
    have back : -(value.natAbs : Int) = value := by omega
    simp only [negative, digitsValue_decimalDigits, Option.isNone_none, Option.isNone_some, Bool.and_self,
      Bool.false_eq_true, if_true, if_false, fits, and_self, back]
  · have fits : value.natAbs < wordLimit := by omega
    have back : (value.natAbs : Int) = value := by omega
    simp only [negative, digitsValue_decimalDigits, Option.isNone_none, Bool.and_self, if_true, if_false, fits, back]

end Whole

theorem number_of_pointed {literal : Literal} (unsigned : literal.sign = none) (pointed : literal.fraction.isNone = false)
    {value : Float} (read : unsignedReal? literal = some value) : number literal = .real value := by
  unfold number real
  rw [pointed, read, unsigned]
  rfl

/-- A number is taken from the front of a text as one token. -/
theorem take?_number {literal : Literal} (sound : literal.Sound) (number : isNumber literal = true) {after : List Char}
    (free : Free Literal.goesOn after) : ∃ first rest, literal.text ++ after = first :: rest ∧
      Text.isMarkupBlank first = false ∧ Token.take? first rest = some (.number literal, after) := by
  obtain ⟨first, rest, shape, starts⟩ := isNumber_starts sound number
  have scanned := Literal.scan?_text sound free
  rw [shape, List.cons_append] at scanned
  have read : Token.number? (first :: (rest ++ after)) = some (.number literal, after) := by
    unfold Token.number?
    rw [scanned]
    exact if_pos number
  have unblank : Text.isMarkupBlank first = false := by
    simp only [Text.isMarkupBlank, Bool.or_eq_false_iff, beq_eq_false_iff_ne]
    refine ⟨⟨⟨?_, ?_⟩, ?_⟩, ?_⟩
    all_goals
      rintro rfl
      rcases starts with digit | minus
      · cases digit
      · cases minus
  refine ⟨first, rest ++ after, by rw [shape]; rfl, unblank, ?_⟩
  unfold Token.take?
  split
  iterate 10
    rcases starts with digit | minus
    · cases digit
    · cases minus
  rw [if_pos (by simpa using starts), read]

end Json
end EnvelopeWarp
