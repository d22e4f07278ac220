import EnvelopeWarp.Proofs.Readings
import EnvelopeWarp.Proofs.TextRuns
import EnvelopeWarp.Markup.Tag

/-! What a text with references means. Escaping a text gives one that means it, and writing double quotes by
their name keeps the meaning, because no reference that stands for a character holds one. -/

namespace EnvelopeWarp
namespace Reference

inductive Means : List Char → List Char → Prop
  | nil : Means [] []
  | plain {c : Char} {rest value : List Char} (other : c ≠ '&') (means : Means rest value) :
    Means (c :: rest) (c :: value)
  | reference {name after value : List Char} {found : Char} (inside : ∀ c ∈ name, isMark c = false)
      (resolved : resolve 0 name = .ok found) (means : Means after value) :
    Means ('&' :: name ++ ';' :: after) (found :: value)

/-- Where a reference stands matters only for its fault. -/
theorem resolve_eq_ok {start : Nat} {name : List Char} {found : Char} (resolved : resolve start name = .ok found)
    (other : Nat) : resolve other name = .ok found := by
  unfold resolve at resolved ⊢
  split at resolved
  · exact resolved
  · split at resolved
    · exact resolved
    · cases resolved

private theorem unescapeFrom_of_means {text value : List Char} (means : Means text value) (total : Nat) :
    unescapeFrom total text = .ok value := by
  induction means with
  | nil => rw [unescapeFrom]
  | @plain c rest value other means ih =>
    rw [unescapeFrom, if_neg other, ih]
    rfl
  | @reference name after value found inside resolved means ih =>
    have ended : ∀ c ∈ (';' :: after).head?, isMark c = true := fun c head => Option.some.inj head ▸ rfl
    have taken : (name ++ ';' :: after).takeWhile (fun c => !isMark c) = name := takeWhile_until inside ended
    have dropped : (name ++ ';' :: after).dropWhile (fun c => !isMark c) = ';' :: after :=
      dropWhile_until inside ended
    rw [List.cons_append, unescapeFrom, if_pos rfl]
    simp only
    split
    · next rest same =>
      rw [dropped] at same
      cases same
      rw [taken, resolve_eq_ok resolved, ih]
      rfl
    · next missing => exact absurd dropped (missing after)

private theorem means_of_unescapeFrom {total : Nat} {text value : List Char}
    (read : unescapeFrom total text = .ok value) : Means text value := by
  fun_induction unescapeFrom total text generalizing value with
  | case1 =>
    cases read
    exact .nil
  | case2 rest after ahead start =>
    rename_i ih
    obtain ⟨found, resolved, after_⟩ := bind_eq_ok.mp read
    obtain ⟨others, later, same⟩ := bind_eq_ok.mp after_
    cases same
    have whole : rest = (rest.takeWhile fun c => !isMark c) ++ ';' :: after := by
      rw [← ahead, List.takeWhile_append_dropWhile]
    rw [whole]
    exact .reference (plain_takeWhile isMark rest) (resolve_eq_ok resolved 0) (ih later)
  | case3 => cases read
  | case4 c rest other ih =>
    obtain ⟨others, later, same⟩ := bind_eq_ok.mp read
    cases same
    exact .plain other (ih later)

/-- A value is read without a fault exactly when it means something. -/
theorem unescape_eq_ok {text value : List Char} : unescape text = .ok value ↔ Means text value :=
  ⟨means_of_unescapeFrom, fun means => unescapeFrom_of_means means _⟩

private theorem unmarked {name : List Char} (all : (name.all fun c => !isMark c) = true) :
    ∀ d ∈ name, isMark d = false := by
  simpa using all

private theorem resolve_name? {c : Char} {name : List Char} (named : name? c = some name) :
    (∀ d ∈ name, isMark d = false) ∧ resolve 0 name = .ok c := by
  unfold name? at named
  split at named <;> cases named <;> exact ⟨unmarked rfl, rfl⟩

private theorem means_escape (text : List Char) : Means (escape text) text := by
  induction text with
  | nil => exact .nil
  | cons c rest ih =>
    rw [escape, List.flatMap_cons, escapeChar]
    cases named : name? c with
    | some name =>
      obtain ⟨inside, resolved⟩ := resolve_name? named
      simp only [List.cons_append, List.append_assoc, List.nil_append]
      exact .reference inside resolved ih
    | none =>
      refine .plain ?_ ih
      rintro rfl
      cases named

theorem unescape_escape (text : List Char) : unescape (escape text) = .ok text :=
  unescape_eq_ok.mpr (means_escape text)

theorem quote_not_mem_escape (text : List Char) : '\x22' ∉ escape text := by
  intro member
  obtain ⟨c, _, inside⟩ := List.mem_flatMap.mp member
  unfold escapeChar name? at inside
  split at inside
  · next name named => split at named <;> cases named <;> revert inside <;> decide
  · next plain =>
    obtain rfl := List.mem_singleton.mp inside
    cases plain

private theorem quote_not_mem_digits {base value number : Nat} {text : List Char}
    (read : digitsFrom base value text = .ok number) : '\x22' ∉ text := by
  induction text generalizing value with
  | nil => exact List.not_mem_nil
  | cons c rest ih =>
    intro member
    rw [digitsFrom] at read
    cases digit : Text.digit? base c with
    | none =>
      rw [digit] at read
      cases read
    | some found =>
      rw [digit] at read
      rcases List.mem_cons.mp member with rfl | later
      · cases digit
      · simp only at read
        split at read
        · exact ih read later
        · cases read

private theorem quote_not_mem_unsigned {base number : Nat} {text : List Char} (read : unsigned base text = .ok number) :
    '\x22' ∉ text := by
  unfold unsigned at read
  split at read
  · cases read
  · split at read
    · cases read
    · exact quote_not_mem_digits read

private theorem quote_not_mem_numbered {text : List Char} {found : Char} (read : numbered text = .ok found) :
    '\x22' ∉ text := by
  unfold numbered at read
  split at read
  · obtain ⟨number, digits, _⟩ := bind_eq_ok.mp read
    have inside := quote_not_mem_unsigned digits
    simpa using inside
  · obtain ⟨number, digits, _⟩ := bind_eq_ok.mp read
    exact quote_not_mem_unsigned digits

private theorem quote_not_mem_resolved {start : Nat} {name : List Char} {found : Char}
    (resolved : resolve start name = .ok found) : '\x22' ∉ name := by
  unfold resolve at resolved
  split at resolved
  · split at resolved
    · next read =>
      have inside := quote_not_mem_numbered read
      simpa using inside
    · cases resolved
  · split at resolved
    · next c named =>
      have shape : name? c = some name := by simpa using List.find?_some named
      unfold name? at shape
      split at shape <;> cases shape <;> decide
    · cases resolved

theorem requote_of_quote_not_mem {text : List Char} (absent : '\x22' ∉ text) :
    text.flatMap Attribute.requoteChar = text := by
  induction text with
  | nil => rfl
  | cons c rest ih =>
    rw [List.mem_cons, not_or] at absent
    rw [List.flatMap_cons, Attribute.requoteChar, if_neg (Ne.symm absent.1), ih absent.2, List.singleton_append]

theorem quote_not_mem_requote (raw : List Char) : '\x22' ∉ raw.flatMap Attribute.requoteChar := by
  intro member
  obtain ⟨c, _, inside⟩ := List.mem_flatMap.mp member
  unfold Attribute.requoteChar at inside
  split at inside
  · next quote =>
    subst quote
    revert inside
    decide
  · next other => exact other (List.mem_singleton.mp inside).symm

private theorem means_requote {raw value : List Char} (means : Means raw value) :
    Means (raw.flatMap Attribute.requoteChar) value := by
  induction means with
  | nil => exact .nil
  | @plain c rest value other means ih =>
    rw [List.flatMap_cons, Attribute.requoteChar]
    split
    · next quote =>
      subst quote
      exact .reference (unmarked rfl : ∀ c ∈ "quot".toList, isMark c = false) rfl ih
    · exact .plain other ih
  | @reference name after value found inside resolved means ih =>
    have kept : ('&' :: name ++ [';']).flatMap Attribute.requoteChar = '&' :: name ++ [';'] := by
      apply requote_of_quote_not_mem
      simpa using quote_not_mem_resolved resolved
    have split : '&' :: name ++ ';' :: after = ('&' :: name ++ [';']) ++ after := by simp
    rw [split, List.flatMap_append, kept]
    simpa using Means.reference inside resolved ih

/-- Changing the quotes of a value does not change what is read. -/
theorem unescape_requote {raw value : List Char} (read : unescape raw = .ok value) :
    unescape (raw.flatMap Attribute.requoteChar) = .ok value :=
  unescape_eq_ok.mpr (means_requote (unescape_eq_ok.mp read))

end Reference
end EnvelopeWarp
