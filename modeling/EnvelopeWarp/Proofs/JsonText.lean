import Mathlib.Data.List.Forall2
import EnvelopeWarp.Json.Text

/-! Texts in structured data are read back. A character is written as it is, as a letter behind a backslash or as a
number; such numbers are small, so none of them looks for a partner. -/

namespace EnvelopeWarp
namespace Json

/-- A piece stands for a character by itself. -/
inductive Piece.Means : Piece → Char → Prop where
  | char (c : Char) : Means (.char c) c
  | unit {c : Char} (small : c.toNat < 0x20) : Means (.unit c.toNat) c

private theorem characters?_cons {piece : Piece} {c : Char} (means : piece.Means c) (rest : List Piece) :
    characters? (piece :: rest) = (characters? rest).map (c :: ·) := by
  cases means with
  | char => rw [characters?]
  | unit small =>
    have not_high : isHigh c.toNat = false := by simp [isHigh]; omega
    have not_low : isLow c.toNat = false := by simp [isLow]; omega
    cases rest with
    | nil => simp [characters?, not_high, not_low]
    | cons next rest =>
      cases next with
      | char d => simp [characters?, not_high, not_low]
      | unit value => rw [characters?, not_high, not_low, Char.ofNat_toNat]; rfl

private theorem characters?_eq {pieces : List Piece} {text : List Char} (means : List.Forall₂ Piece.Means pieces text) :
    characters? pieces = some text := by
  induction means with
  | nil => rfl
  | cons first _ ih => rw [characters?_cons first, ih]; rfl

private theorem unit?_unitDigits {number : Nat} (small : number < 0x20) :
    ∃ a b c d, unitDigits number = [a, b, c, d] ∧ unit? [a, b, c, d] = some number := by
  have each : ∀ number < 0x20, (unitDigits number).length = 4 ∧ unit? (unitDigits number) = some number := by decide
  obtain ⟨four, value⟩ := each number small
  obtain ⟨a, b, c, d, digits⟩ := List.length_eq_four.mp four
  exact ⟨a, b, c, d, digits, digits ▸ value⟩

private theorem pieces?_letter {letter c : Char} (meant : letter? letter = some c) (rest : List Char) :
    pieces? ('\x5c' :: letter :: rest) = (pieces? rest).map fun found => (.char c :: found.1, found.2) := by
  have other : letter ≠ 'u' := by rintro rfl; cases meant
  rw [pieces?.eq_4 letter rest fun _ _ _ _ _ same => absurd same other, meant]
  cases pieces? rest <;> rfl

private theorem pieces?_unit {number : Nat} (small : number < 0x20) (rest : List Char) :
    pieces? ('\x5c' :: 'u' :: unitDigits number ++ rest) =
      (pieces? rest).map fun found => (.unit number :: found.1, found.2) := by
  obtain ⟨a, b, c, d, digits, value⟩ := unit?_unitDigits small
  rw [digits]
  simp only [List.cons_append, List.nil_append]
  rw [pieces?, value]
  cases pieces? rest <;> rfl

private theorem pieces?_plain {c : Char} (mark : c ≠ '\x22') (backslash : c ≠ '\x5c') (printed : 0x20 ≤ c.toNat)
    (rest : List Char) : pieces? (c :: rest) = (pieces? rest).map fun found => (.char c :: found.1, found.2) := by
  have open_ : (c.toNat < 0x20 || c == '\x5c') = false := by
    simp only [Bool.or_eq_false_iff, decide_eq_false_iff_not, beq_eq_false_iff_ne]
    exact ⟨Nat.not_lt.mpr printed, backslash⟩
  rw [pieces?.eq_5 c rest mark (fun _ _ _ _ _ same => absurd same backslash) fun _ _ same => absurd same backslash,
    open_]
  rfl

/-- A character is written so that it is read back before anything else is. -/
theorem pieces?_quoteChar (c : Char) : ∃ piece : Piece, piece.Means c ∧
    ∀ rest, pieces? (quoteChar c ++ rest) = (pieces? rest).map fun found => (piece :: found.1, found.2) := by
  unfold quoteChar
  split
  iterate 7 exact ⟨_, .char _, pieces?_letter rfl⟩
  next _ mark backslash _ _ _ _ _ =>
    split
    · next small => exact ⟨_, .unit small, pieces?_unit small⟩
    · next large => exact ⟨_, .char c, pieces?_plain mark backslash (Nat.not_lt.mp large)⟩

private theorem pieces?_quoteChars (text after : List Char) : ∃ pieces, List.Forall₂ Piece.Means pieces text ∧
    pieces? (text.flatMap quoteChar ++ '\x22' :: after) = some (pieces, after) := by
  induction text with
  | nil => exact ⟨[], .nil, rfl⟩
  | cons c text ih =>
    obtain ⟨piece, first, read⟩ := pieces?_quoteChar c
    obtain ⟨pieces, rest, found⟩ := ih
    refine ⟨piece :: pieces, .cons first rest, ?_⟩
    rw [List.flatMap_cons, List.append_assoc, read, found]
    rfl

/-- Whatever a text holds, its characters are found again between the quotes that it is written in. -/
theorem pieces?_quote (text after : List Char) : ∃ rest pieces, quote text ++ after = '\x22' :: rest ∧
    pieces? rest = some (pieces, after) ∧ characters? pieces = some text := by
  obtain ⟨pieces, means, found⟩ := pieces?_quoteChars text after
  refine ⟨_, pieces, ?_, found, characters?_eq means⟩
  simp [quote]

end Json
end EnvelopeWarp
