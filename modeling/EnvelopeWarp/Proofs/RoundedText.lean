import EnvelopeWarp.Proofs.DoubleText

/-! The text of a coordinate at any precision. That of a finite double is a decimal literal, whose fraction has lost
the zeros at its end; equal doubles have the same text, so the sign of zero is not seen; and that of any other double
is a word with a letter that path data has no use for. -/

namespace EnvelopeWarp

namespace Path

private theorem dropZeros_of_pointless {text : List Char} (absent : '.' ∉ text) : dropZeros text = text := by
  rw [dropZeros, if_neg]
  simpa using absent

private theorem dropZeros_of_pointed {front fraction : List Char} (absent : '.' ∉ front)
    (digits : ∀ c ∈ fraction, c.isDigit = true) : dropZeros (front ++ '.' :: fraction) =
      front ++ Positional.text ⟨[], (fraction.reverse.dropWhile (· == '0')).reverse⟩ := by
  have point : (front ++ '.' :: fraction).contains '.' = true := by simp
  have reversed : (front ++ '.' :: fraction).reverse = fraction.reverse ++ '.' :: front.reverse := by simp
  have free : Free (· == '.') front.reverse := free_of_not_mem fun member => absent (List.mem_reverse.mp member)
  rw [dropZeros, if_pos point, reversed, List.dropWhile_append]
  cases kept : fraction.reverse.dropWhile (· == '0') with
  | nil =>
    have ended : ('.' :: front.reverse).dropWhile (· == '.') = front.reverse := free.dropWhile
    have zeros : ('.' :: front.reverse).dropWhile (· == '0') = '.' :: front.reverse := rfl
    simp [Positional.text, zeros, ended]
  | cons digit others =>
    have inside : digit ∈ fraction.reverse := (List.dropWhile_sublist (· == '0')).subset (kept ▸ List.mem_cons_self)
    have other : (digit == '.') = false := by
      rw [beq_eq_false_iff_ne]
      rintro rfl
      exact absurd (digits '.' (List.mem_reverse.mp inside)) (by decide)
    simp [Positional.text, other]

end Path

namespace Positional

/-- The same digits without the zeros at the end of the fraction. -/
def trimmed (number : Positional) : Positional :=
  ⟨number.whole, (number.fraction.reverse.dropWhile (· == '0')).reverse⟩

theorem Sound.trimmed {number : Positional} (sound : number.Sound) : number.trimmed.Sound := by
  refine ⟨sound.whole, fun c member => sound.fraction c ?_, sound.some_digit⟩
  have kept := (List.dropWhile_sublist (· == '0')).subset (List.mem_reverse.mp member)
  exact List.mem_reverse.mp kept

theorem Sound.point_not_mem {number : Positional} (sound : number.Sound) (negative : Bool) :
    '.' ∉ signText negative ++ number.whole := by
  intro member
  rcases List.mem_append.mp member with signed | digit
  · cases negative <;> simp [signText] at signed
  · exact absurd (sound.whole '.' digit) (by decide)

theorem Sound.dropZeros {number : Positional} (sound : number.Sound) (negative : Bool) :
    Path.dropZeros (signText negative ++ number.text) = signText negative ++ number.trimmed.text := by
  have no_point := sound.point_not_mem negative
  obtain ⟨whole, fraction⟩ := number
  cases fraction with
  | nil => exact Path.dropZeros_of_pointless no_point
  | cons digit digits =>
    have split : signText negative ++ text ⟨whole, digit :: digits⟩ =
        (signText negative ++ whole) ++ '.' :: digit :: digits := by
      simp [text]
    rw [split, Path.dropZeros_of_pointed no_point sound.fraction, Positional.trimmed]
    generalize ((digit :: digits).reverse.dropWhile (· == '0')).reverse = kept
    cases kept <;> simp [text]

private theorem ofDigits_zero (places : Nat) : ofDigits 0 (-(places : Int)) = ⟨['0'], List.replicate places '0'⟩ := by
  have zero : decimalDigits 0 = ['0'] := rfl
  unfold ofDigits
  split
  · next whole =>
    obtain rfl : places = 0 := by omega
    simp [zero]
  · have padded : List.replicate places '0' ++ ['0'] = '0' :: List.replicate places '0' :=
      (List.replicate_succ' ).symm.trans List.replicate_succ
    simp [zero, padded]

theorem trimmed_zero (places : Nat) : (ofDigits 0 (-(places : Int))).trimmed = ⟨['0'], []⟩ := by
  rw [ofDigits_zero, trimmed, List.reverse_replicate]
  simp

end Positional

namespace Path

private theorem fixed_text {x : Float} (finite : x.isFinite = true) (places : Nat) :
    ∃ number : Positional, number.Sound ∧
    dropZeros ((Layout.fixed places).text x) = signText (Double.negative x) ++ number.text := by
  have inside := (Double.isFinite_iff x).mp finite
  rw [Layout.text, if_neg (by omega), if_neg (by omega)]
  exact ⟨_, (Positional.sound_ofDigits _ _).trimmed, (Positional.sound_ofDigits _ _).dropZeros _⟩

/-- At any precision the text of a finite coordinate spells a decimal. -/
theorem exists_coordinate_spells {x : Float} (finite : x.isFinite = true) (precision : Option Nat) :
    ∃ value, Spells (coordinate precision x) value := by
  cases precision with
  | none =>
    obtain ⟨value, spells, _⟩ := coordinate_spells finite
    exact ⟨value, spells⟩
  | some places =>
    obtain ⟨number, sound, written⟩ := fixed_text finite places
    unfold coordinate
    simp only
    split
    · exact ⟨_, ⟨none, ['0'], none, none⟩, ⟨by simp, by simp, by simp, by simp, by simp⟩, rfl, rfl⟩
    · rw [written, ← Positional.literal_text]
      exact ⟨_, _, sound.literal _, rfl, rfl⟩

private theorem coordinate_zero {x : Float} (zero : Double.magnitude x = 0) (precision : Option Nat) :
    coordinate precision x = ['0'] := by
  have below : ¬Double.infinity < Double.magnitude x := by
    rw [zero]
    exact Nat.not_lt_zero _
  have other : Double.magnitude x ≠ Double.infinity := by
    rw [zero]
    decide
  cases precision with
  | none =>
    simp only [coordinate, Layout.text, if_neg below, if_neg other, Layout.plain, Shortest.decimal, if_pos zero]
    cases Double.negative x <;> rfl
  | some places =>
    have digits : (Layout.fixed places).finite x =
        signText (Double.negative x) ++ (Positional.ofDigits 0 (-(places : Int))).text := by
      have value : Double.dyadic 0 = ⟨0, -1074⟩ := rfl
      simp [Layout.fixed, zero, value, roundDiv]
    simp only [coordinate, Layout.text, if_neg below, if_neg other, digits,
      (Positional.sound_ofDigits 0 (-(places : Int))).dropZeros, Positional.trimmed_zero]
    cases Double.negative x <;> rfl

/-- Equal doubles have the same text. -/
theorem coordinate_congr {x y : Float} (equal : (x == y) = true) (precision : Option Nat) :
    coordinate precision x = coordinate precision y := by
  rcases Double.eq_cases equal with rfl | ⟨first, second⟩
  · rfl
  · rw [coordinate_zero first, coordinate_zero second]

theorem coordinate_of_not_finite {x : Float} (infinite : x.isFinite = false) (precision : Option Nat) :
    ∃ c ∈ coordinate precision x, c = 'n' ∨ c = 'N' := by
  have outside : Double.infinity ≤ Double.magnitude x := by
    rw [← not_lt, ← Double.isFinite_iff, infinite]
    exact Bool.false_ne_true
  have word : coordinate precision x = "NaN".toList ∨ coordinate precision x = "inf".toList ∨
      coordinate precision x = "-inf".toList := by
    rcases outside.lt_or_eq with beyond | here
    · left
      cases precision <;> simp only [coordinate, Layout.text, if_pos beyond] <;> rfl
    · right
      have below : ¬Double.infinity < Double.magnitude x := here.not_lt
      cases precision <;> simp only [coordinate, Layout.text, if_neg below, if_pos here.symm] <;>
        cases Double.negative x
      · exact .inl rfl
      · exact .inr rfl
      · exact .inl rfl
      · exact .inr rfl
  rcases word with word | word | word
  · exact ⟨'N', word ▸ .head _, .inr rfl⟩
  · exact ⟨'n', word ▸ .tail _ (.head _), .inl rfl⟩
  · exact ⟨'n', word ▸ .tail _ (.tail _ (.head _)), .inl rfl⟩

end Path
end EnvelopeWarp
