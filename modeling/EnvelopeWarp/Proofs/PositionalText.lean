import EnvelopeWarp.Proofs.LiteralText
import EnvelopeWarp.Decimal.Layout

/-! Positional texts as literals: the digits of a number with a point among them write that number. -/

namespace EnvelopeWarp

theorem digitsValue_append (first second : List Char) :
    digitsValue (first ++ second) = digitsValue first * 10 ^ second.length + digitsValue second := by
  have step : ∀ (digits : List Char) (start : Nat),
      digits.foldl (fun value digit => 10 * value + (digit.toNat - 48)) start =
        start * 10 ^ digits.length + digitsValue digits := by
    intro digits
    induction digits with
    | nil => simp [digitsValue]
    | cons digit digits ih =>
      intro start
      simp only [List.foldl_cons, digitsValue, List.length_cons, Nat.mul_zero, Nat.zero_add]
      rw [ih, ih (digit.toNat - 48), Nat.pow_succ, Nat.add_mul]
      simp only [Nat.mul_comm, Nat.mul_assoc, Nat.add_assoc]
  rw [digitsValue, List.foldl_append, step, step first]
  simp

theorem digitsValue_zeros (count : Nat) : digitsValue (List.replicate count '0') = 0 := by
  induction count with
  | zero => rfl
  | succ count ih => rw [List.replicate_succ', digitsValue_append, ih]; rfl

theorem digitsValue_decimalDigits (value : Nat) : digitsValue (decimalDigits value) = value := by
  have digit : ∀ n < 10, digitsValue [Nat.digitChar n] = n := by decide
  induction value using Nat.strongRecOn with
  | ind value ih =>
    unfold decimalDigits at ih ⊢
    by_cases small : value < 10
    · rw [Nat.toDigits_of_lt_base small, digit value small]
    · rw [Nat.toDigits_of_base_le (by decide) (by omega), digitsValue_append, ih (value / 10) (by omega),
        digit (value % 10) (by omega)]
      simp only [List.length_singleton]
      omega

theorem isDigit_of_mem_decimalDigits {value : Nat} {c : Char} (member : c ∈ decimalDigits value) :
    c.isDigit = true :=
  Nat.isDigit_of_mem_toDigits (by decide) (by decide) member

theorem head_decimalDigits {value : Nat} (positive : 0 < value) : (decimalDigits value).head? ≠ some '0' := by
  have digit : ∀ n < 10, 0 < n → Nat.digitChar n ≠ '0' := by decide
  induction value using Nat.strongRecOn with
  | ind value ih =>
    unfold decimalDigits at ih ⊢
    by_cases small : value < 10
    · rw [Nat.toDigits_of_lt_base small]
      exact fun zero => digit value small positive (Option.some.inj zero)
    · rw [Nat.toDigits_of_base_le (by decide) (by omega), List.head?_append_of_ne_nil _ Nat.toDigits_ne_nil]
      exact ih (value / 10) (by omega) (by omega)

namespace Positional

def literal (negative : Bool) (number : Positional) : Literal :=
  ⟨if negative then some '-' else none, number.whole,
    if number.fraction.isEmpty then none else some number.fraction, none⟩

theorem literal_text (negative : Bool) (number : Positional) :
    (number.literal negative).text = signText negative ++ number.text := by
  cases negative <;> cases number with
  | mk whole fraction => cases fraction <;> simp [literal, Literal.text, signText, text, Literal.fractionText]

theorem literal_fraction (negative : Bool) (number : Positional) :
    (number.literal negative).fraction.getD [] = number.fraction := by
  cases number with
  | mk whole fraction => cases fraction <;> rfl

/-- Digits alone, with at least one before the point. -/
structure Sound (number : Positional) : Prop where
  whole : ∀ c ∈ number.whole, c.isDigit = true
  fraction : ∀ c ∈ number.fraction, c.isDigit = true
  some_digit : number.whole ≠ []

theorem Sound.literal {number : Positional} (sound : number.Sound) (negative : Bool) :
    (number.literal negative).Sound := by
  refine ⟨?_, sound.whole, ?_, ?_, ?_⟩
  · cases negative <;> simp [Positional.literal, isSign]
  · intro fraction written c member
    simp only [Positional.literal] at written
    split at written
    · cases written
    · cases written
      exact sound.fraction c member
  · exact List.append_ne_nil_of_left_ne_nil sound.some_digit _
  · simp [Positional.literal]

/-- The literal with digits on either side of its point. -/
def pointedLiteral (negative : Bool) (number : Positional) : Literal :=
  ⟨if negative then some '-' else none, number.whole,
    some (if number.fraction.isEmpty then ['0'] else number.fraction), none⟩

theorem pointedLiteral_text (negative : Bool) (number : Positional) :
    (number.pointedLiteral negative).text = signText negative ++ number.pointed := by
  cases negative <;> simp [pointedLiteral, Literal.text, signText, pointed, Literal.fractionText]

/-- There are digits behind the point. -/
theorem Sound.exists_pointed {number : Positional} (sound : number.Sound) : ∃ fraction : List Char, fraction ≠ [] ∧
    (∀ c ∈ fraction, c.isDigit = true) ∧ number.pointed = number.whole ++ '.' :: fraction ∧
      ∀ negative, number.pointedLiteral negative =
        ⟨if negative then some '-' else none, number.whole, some fraction, none⟩ := by
  by_cases none_left : number.fraction.isEmpty = true
  · refine ⟨['0'], List.cons_ne_nil _ _, List.forall_mem_singleton.mpr rfl, ?_, fun _ => ?_⟩
    · rw [pointed, if_pos none_left]
    · rw [Positional.pointedLiteral, if_pos none_left]
  · refine ⟨number.fraction, mt List.isEmpty_iff.mpr none_left, sound.fraction, ?_, fun _ => ?_⟩
    · rw [pointed, if_neg none_left]
    · rw [Positional.pointedLiteral, if_neg none_left]

theorem Sound.pointedLiteral {number : Positional} (sound : number.Sound) (negative : Bool) :
    (number.pointedLiteral negative).Sound := by
  obtain ⟨fraction, _, digits, _, literal⟩ := sound.exists_pointed
  rw [literal]
  refine ⟨?_, sound.whole, ?_, List.append_ne_nil_of_left_ne_nil sound.some_digit _, nofun⟩
  · cases negative <;> simp [isSign]
  · rintro _ ⟨⟩
    exact digits

theorem pointedLiteral_value (negative : Bool) (number : Positional) : ∃ digits exponent,
    (number.pointedLiteral negative).value = ⟨negative, digits, exponent⟩ ∧ (digits : ℚ) * 10 ^ exponent =
      (number.literal negative).value.digits * 10 ^ (number.literal negative).value.exponent := by
  obtain ⟨whole, fraction⟩ := number
  have zero : digitsValue ['0'] = 0 := rfl
  cases negative <;> cases fraction <;> refine ⟨_, _, rfl, ?_⟩
  all_goals first | rfl | simp [pointedLiteral, literal, Literal.value, digitsValue_append, zero]

variable (digits : Nat) (exponent : Int)

private theorem digits_ofDigits {c : Char}
    (member : c ∈ (ofDigits digits exponent).whole ++ (ofDigits digits exponent).fraction) :
    c.isDigit = true := by
  unfold ofDigits at member
  split at member
  · simp only [List.append_nil] at member
    split at member
    · exact isDigit_of_mem_decimalDigits member
    · rcases List.mem_append.mp member with member | member
      · exact isDigit_of_mem_decimalDigits member
      · rw [(List.mem_replicate.mp member).2]
        rfl
  · simp only [List.take_append_drop] at member
    rcases List.mem_append.mp member with member | member
    · rw [(List.mem_replicate.mp member).2]
      rfl
    · exact isDigit_of_mem_decimalDigits member

theorem whole_ofDigits : (ofDigits digits exponent).whole ≠ [] := by
  have written : decimalDigits digits ≠ [] := Nat.toDigits_ne_nil
  unfold ofDigits
  split
  · simp only
    split
    · exact written
    · simp [written]
  · intro empty
    have length := congrArg List.length empty
    simp only [List.length_take, List.length_append, List.length_replicate, List.length_nil] at length
    omega

theorem sound_ofDigits : (ofDigits digits exponent).Sound :=
  ⟨fun _ member => digits_ofDigits digits exponent (List.mem_append_left _ member),
    fun _ member => digits_ofDigits digits exponent (List.mem_append_right _ member), whole_ofDigits digits exponent⟩

theorem literal_sound (negative : Bool) : ((ofDigits digits exponent).literal negative).Sound :=
  (sound_ofDigits digits exponent).literal negative

theorem digitsValue_ofDigits :
    digitsValue ((ofDigits digits exponent).whole ++ (ofDigits digits exponent).fraction) =
      digits * 10 ^ exponent.toNat := by
  unfold ofDigits
  split
  · simp only [List.append_nil]
    split
    · next zero => rw [digitsValue_decimalDigits, zero, Nat.zero_mul]
    · rw [digitsValue_append, digitsValue_decimalDigits, digitsValue_zeros, List.length_replicate, Nat.add_zero]
  · next small =>
    have places : exponent.toNat = 0 := by omega
    simp only [List.take_append_drop]
    rw [digitsValue_append, digitsValue_zeros, digitsValue_decimalDigits, places]
    simp

theorem length_fraction_ofDigits : ((ofDigits digits exponent).fraction.length : Int) = -min exponent 0 := by
  unfold ofDigits
  split
  · simp
    omega
  · simp only [List.length_drop, List.length_append, List.length_replicate]
    omega

/-- What is written is the number, with the power of ten written out as far as it is positive. -/
theorem literal_value (negative : Bool) : ((ofDigits digits exponent).literal negative).value =
    ⟨negative, digits * 10 ^ exponent.toNat, min exponent 0⟩ := by
  have length := length_fraction_ofDigits digits exponent
  have value := digitsValue_ofDigits digits exponent
  rw [← literal_fraction negative] at length value
  simp only [Literal.value, length, Decimal.mk.injEq]
  refine ⟨?_, value, ?_⟩
  · cases negative <;> simp [literal]
  · simp [literal]

/-- No needless zero stands before other digits. -/
theorem head_ofDigits :
    (ofDigits digits exponent).whole.head? = some '0' → (ofDigits digits exponent).whole.length = 1 := by
  have written : decimalDigits digits ≠ [] := Nat.toDigits_ne_nil
  have length : 0 < (decimalDigits digits).length := List.length_pos_of_ne_nil written
  unfold ofDigits
  split
  · simp only
    split
    · next zero =>
      rw [zero]
      exact fun _ => rfl
    · next positive =>
      rw [List.head?_append_of_ne_nil _ written]
      exact fun zero => absurd zero (head_decimalDigits (Nat.pos_of_ne_zero positive))
  · next small =>
    simp only [List.length_append, List.length_replicate, List.length_take]
    by_cases short : (decimalDigits digits).length ≤ (-exponent).toNat
    · exact fun _ => by omega
    · have none_added : (-exponent).toNat + 1 - (decimalDigits digits).length = 0 := by omega
      have some_taken : (decimalDigits digits).length - (-exponent).toNat ≠ 0 := by omega
      rw [none_added, List.replicate_zero, List.nil_append, Nat.zero_add, List.head?_take, if_neg some_taken]
      intro zero
      by_cases none_digit : digits = 0
      · rw [none_digit] at short
        have one : (decimalDigits 0).length = 1 := rfl
        omega
      · exact absurd zero (head_decimalDigits (Nat.pos_of_ne_zero none_digit))

end Positional
end EnvelopeWarp
