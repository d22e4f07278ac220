import EnvelopeWarp.Proofs.TomlScalars
import EnvelopeWarp.Toml.Reader

/-! Sections of settings tables are read back. A header is read as the statement that opens its table and an entry as
the value under its name, line by line, so a file of sections is read as the statements of one section after the other. -/

namespace EnvelopeWarp
namespace Toml

/-- A name that is written without quotes. -/
structure Bare (name : List Char) : Prop where
  some_char : name ≠ []
  chars : ∀ c ∈ name, Key.isBareChar c = true

theorem bare_of_all {name : List Char} (all : (!name.isEmpty && name.all Key.isBareChar) = true) : Bare name := by
  rw [Bool.and_eq_true, Bool.not_eq_true', List.all_eq_true] at all
  exact ⟨by simpa using all.1, all.2⟩

theorem Bare.starts {name : List Char} (bare : Bare name) : ∃ c rest, name = c :: rest ∧ Key.isBareChar c = true := by
  obtain ⟨c, rest, rfl⟩ := List.exists_cons_of_ne_nil bare.some_char
  exact ⟨c, rest, rfl, bare.chars c (.head _)⟩

private theorem ne_of_isBareChar {c mark : Char} (open_ : Key.isBareChar c = true)
    (other : Key.isBareChar mark = false) : c ≠ mark := by
  rintro rfl
  rw [open_] at other
  cases other

private theorem isBlank_of_isBareChar {c : Char} (open_ : Key.isBareChar c = true) : isBlank c = false := by
  simp only [isBlank, Bool.or_eq_false_iff, beq_eq_false_iff_ne]
  exact ⟨ne_of_isBareChar open_ (by decide), ne_of_isBareChar open_ (by decide)⟩

section Keys
variable {name rest : List Char} (bare : Bare name)
include bare

theorem Bare.unblank (rest : List Char) : (name ++ rest).dropWhile isBlank = name ++ rest := by
  obtain ⟨c, others, rfl, open_⟩ := bare.starts
  exact (Free.cons (isBlank_of_isBareChar open_)).dropWhile

private theorem name?_bare (free : Free Key.isBareChar rest) : Key.name? (name ++ rest) = some (name, rest) := by
  obtain ⟨c, others, shape, open_⟩ := bare.starts
  have double : c ≠ '\x22' := ne_of_isBareChar open_ (by decide)
  have single : c ≠ '\x27' := ne_of_isBareChar open_ (by decide)
  unfold Key.name?
  split
  · next same =>
    rw [shape] at same
    exact absurd (List.cons.inj same).1 double
  · next same =>
    rw [shape] at same
    exact absurd (List.cons.inj same).1 single
  · rw [takeWhile_of_free bare.chars free, dropWhile_of_free bare.chars free,
      if_neg (by simpa using bare.some_char)]

private theorem names?_last (free : Free Key.isBareChar rest) (ended : Free (· == '.') (rest.dropWhile isBlank)) :
    Key.names? (name ++ rest) = some (⟨[], String.ofList name⟩, rest.dropWhile isBlank) := by
  rw [Key.names?, bare.unblank, name?_bare bare free]
  simp only
  split
  · next point =>
    rw [point] at ended
    exact absurd (ended '.' rfl) (by decide)
  · rfl

private theorem names?_point (rest : List Char) : Key.names? (name ++ '.' :: rest) =
    (Key.names? rest).map fun found => (⟨String.ofList name :: found.1.outer, found.1.name⟩, found.2) := by
  have shorter : rest.length < (name ++ '.' :: rest).length := by
    simp only [List.length_append, List.length_cons]
    omega
  rw [Key.names?, bare.unblank, name?_bare bare (.cons (by decide))]
  exact dif_pos shorter

end Keys

/-- What is read of a header. -/
def Heads (header : String) (key : Key) : Prop :=
  ∀ rest, Key.take? (header.toList ++ ']' :: rest) = some (key, ']' :: rest)

theorem heads_bare {name : String} (bare : Bare name.toList) : Heads name ⟨[], name⟩ := by
  intro rest
  unfold Key.take?
  rw [names?_last bare (.cons (by decide)) (.cons (by decide)), String.ofList_toList]
  rfl

theorem heads_point {outer inner : String} (bare : Bare outer.toList) (bare_inner : Bare inner.toList) :
    Heads (outer ++ "." ++ inner) ⟨[outer], inner⟩ := by
  intro rest
  have shape : (outer ++ "." ++ inner).toList ++ ']' :: rest =
      outer.toList ++ '.' :: (inner.toList ++ ']' :: rest) := by simp
  unfold Key.take?
  rw [shape, names?_point bare, names?_last bare_inner (.cons (by decide)) (.cons (by decide)), String.ofList_toList,
    Option.map_some, String.ofList_toList]
  rfl

section Lines
variable {found : Statement} {line after : List Char}

private theorem statements?_empty (after : List Char) : statements? ('\n' :: after) = statements? after := by
  have shorter : after.length < ('\n' :: after).length := Nat.lt_succ_self _
  have unblank : ('\n' :: after).dropWhile isBlank = '\n' :: after := rfl
  rw [statements?, unblank]
  exact dif_pos shorter

private theorem statements?_line {c : Char} (visible : isBlank c = false ∧ c ≠ '#' ∧ c ≠ '\n' ∧ c ≠ '\r')
    (read : statement? (c :: line ++ '\n' :: after) = some (found, '\n' :: after)) :
    statements? (c :: line ++ '\n' :: after) = (statements? after).map (found :: ·) := by
  obtain ⟨unblank, comment, line_feed, carriage⟩ := visible
  have shorter : after.length < (c :: line ++ '\n' :: after).length := by
    simp only [List.length_append, List.length_cons]
    omega
  have free : Free isBlank (c :: line ++ '\n' :: after) := .cons unblank
  have ended : lineEnd? ('\n' :: after) = some after := rfl
  rw [statements?, free.dropWhile, List.cons_append]
  rw [List.cons_append] at read shorter
  simp only [comment, line_feed, carriage, beq_iff_eq, Bool.or_eq_true, or_self, if_false, read, ended, shorter, dite_true]

theorem Heads.not_bracket {header : String} {key : Key} (heads : Heads header key) (rest : List Char) :
    header.toList ≠ '[' :: rest := by
  intro same
  have taken := heads []
  have nothing (text : List Char) : Key.names? ('[' :: text) = none := by
    have unblank : ('[' :: text).dropWhile isBlank = '[' :: text := rfl
    have unnamed : Key.name? ('[' :: text) = none := rfl
    rw [Key.names?, unblank, unnamed]
  unfold Key.take? at taken
  rw [same, List.cons_append, nothing] at taken
  cases taken

private theorem statements?_header {header : String} {key : Key} (heads : Heads header key) (after : List Char) :
    statements? ('[' :: header.toList ++ "]\n".toList ++ after) = (statements? after).map (.table key :: ·) := by
  have shape : '[' :: header.toList ++ "]\n".toList ++ after = '[' :: (header.toList ++ [']']) ++ '\n' :: after := by
    simp
  have read : statement? ('[' :: (header.toList ++ [']']) ++ '\n' :: after) = some (.table key, '\n' :: after) := by
    have taken := heads ('\n' :: after)
    rw [List.cons_append, List.append_assoc]
    change header? (header.toList ++ ']' :: '\n' :: after) = _
    unfold header?
    split
    · next same =>
      cases named : header.toList with
      | nil =>
        rw [named] at same
        cases same
      | cons c others =>
        rw [named] at same
        obtain ⟨rfl, _⟩ := List.cons.inj same
        exact absurd named (heads.not_bracket others)
    · rw [taken]
      rfl
  rw [shape, statements?_line (by decide) read]

/-- A text in which a value starts does not start with a blank, a list or a table. -/
theorem scalar?_starts {text : List Char} {found : Data × List Char} (read : scalar? text = some found) :
    ∃ c rest, text = c :: rest ∧ isBlank c = false ∧ c ≠ '[' ∧ c ≠ '\x7b' := by
  cases text with
  | nil => cases read
  | cons c rest =>
    have starts (mark : Char) (double : mark ≠ '\x22') (single : mark ≠ '\x27') (other : isWordChar mark = false) :
        c ≠ mark := by
      rintro rfl
      have nothing : (c :: rest).takeWhile isWordChar = [] := by rw [List.takeWhile_cons, other]; rfl
      unfold scalar? at read
      split at read
      · next same => exact double (List.cons.inj same).1
      · next same => exact single (List.cons.inj same).1
      · unfold word? at read
        simp only at read
        rw [nothing] at read
        cases read
    refine ⟨c, rest, rfl, ?_, starts '[' (by decide) (by decide) (by decide),
      starts '\x7b' (by decide) (by decide) (by decide)⟩
    simp only [isBlank, Bool.or_eq_false_iff, beq_eq_false_iff_ne]
    exact ⟨starts ' ' (by decide) (by decide) (by decide), starts '\t' (by decide) (by decide) (by decide)⟩

private theorem value?_write {value : Scalar} (fits : value.Fits) (after : List Char) :
    value? depthLimit (value.write ++ '\n' :: after) = some (value.data, '\n' :: after) ∧
      Free isBlank (value.write ++ '\n' :: after) := by
  have read := scalar?_write fits after
  obtain ⟨mark, rest, starts, unblank, no_list, no_table⟩ := scalar?_starts read
  rw [starts] at read ⊢
  refine ⟨?_, .cons unblank⟩
  rw [← read]
  unfold depthLimit value?
  split
  · next same => exact absurd (List.cons.inj same).1 no_list
  · next same => exact absurd (List.cons.inj same).1 no_table
  · rfl

/-- A name that stands bare before an equals sign is read as a key by itself. -/
theorem take?_entry {name : String} (bare : Bare name.toList) (after : List Char) :
    Key.take? (name.toList ++ ' ' :: '=' :: after) = some (⟨[], name⟩, '=' :: after) := by
  unfold Key.take?
  rw [names?_last bare (.cons (by decide)) (.cons (by decide)), String.ofList_toList]
  rfl

private theorem statements?_entry {name : String} (bare : Bare name.toList) {value : Scalar} (fits : value.Fits)
    (after : List Char) : statements? (Section.entryText (name, value) ++ after) =
      (statements? after).map (.entry ⟨[], name⟩ value.data :: ·) := by
  obtain ⟨c, others, named, open_⟩ := bare.starts
  obtain ⟨whole, unblank⟩ := value?_write fits after
  have key := take?_entry bare (' ' :: (value.write ++ '\n' :: after))
  have shape : Section.entryText (name, value) ++ after =
      c :: (others ++ " = ".toList ++ value.write) ++ '\n' :: after := by
    unfold Section.entryText
    rw [named]
    simp
  have line : name.toList ++ ' ' :: '=' :: ' ' :: (value.write ++ '\n' :: after) =
      c :: (others ++ " = ".toList ++ value.write) ++ '\n' :: after := by
    rw [named]
    simp
  have blank : (' ' :: (value.write ++ '\n' :: after)).dropWhile isBlank = value.write ++ '\n' :: after :=
    unblank.dropWhile
  rw [line] at key
  have read : statement? (c :: (others ++ " = ".toList ++ value.write) ++ '\n' :: after) =
      some (.entry ⟨[], name⟩ value.data, '\n' :: after) := by
    unfold statement?
    split
    · next same => exact absurd (List.cons.inj same).1 (ne_of_isBareChar open_ (by decide))
    · unfold entry? pair?
      rw [key]
      simp only
      rw [blank, whole]
      rfl
  rw [shape, statements?_line _ read]
  exact ⟨isBlank_of_isBareChar open_, ne_of_isBareChar open_ (by decide), ne_of_isBareChar open_ (by decide),
    ne_of_isBareChar open_ (by decide)⟩

end Lines

namespace Section

/-- What is needed of a section so that it is read back. -/
structure Legible (part : Section) (key : Key) : Prop where
  heads : Heads part.header key
  bare : ∀ entry ∈ part.entries, Bare entry.1.toList
  fits : ∀ entry ∈ part.entries, entry.2.Fits

theorem Legible.of_names {part : Section} {key : Key} (heads : Heads part.header key) (names : List String)
    (named : part.entries.map Prod.fst = names)
    (bare : (names.all fun name => !name.toList.isEmpty && name.toList.all Key.isBareChar) = true)
    (fits : ∀ entry ∈ part.entries, entry.2.Fits) : part.Legible key :=
  ⟨heads, fun _ member => bare_of_all (List.all_eq_true.mp bare _ (named ▸ List.mem_map_of_mem member)), fits⟩

/-- The statements of a section: its table is opened and its entries follow. -/
def statements (key : Key) (part : Section) : List Statement :=
  .table key :: part.entries.map fun entry => .entry ⟨[], entry.1⟩ entry.2.data

private theorem statements?_write {part : Section} {key : Key} (legible : part.Legible key) (after : List Char) :
    statements? (part.write ++ after) = (statements? after).map (part.statements key ++ ·) := by
  have entries (rest : List (String × Scalar)) (bare : ∀ entry ∈ rest, Bare entry.1.toList)
      (fits : ∀ entry ∈ rest, entry.2.Fits) : statements? (rest.flatMap entryText ++ after) =
        (statements? after).map ((rest.map fun entry => .entry ⟨[], entry.1⟩ entry.2.data) ++ ·) := by
    induction rest with
    | nil => exact (Option.map_id' ..).symm
    | cons entry rest ih =>
      rw [List.flatMap_cons, List.append_assoc, statements?_entry (bare entry (.head _)) (fits entry (.head _)),
        ih (fun other member => bare other (.tail _ member)) fun other member => fits other (.tail _ member),
        Option.map_map]
      rfl
  unfold write
  rw [List.append_assoc, statements?_header legible.heads,
    entries part.entries legible.bare legible.fits, Option.map_map]
  rfl

/-- Sections are read as their statements, one after the other. -/
theorem statements?_writeAll {parts : List (Key × Section)} (legible : ∀ part ∈ parts, part.2.Legible part.1) :
    statements? (writeAll (parts.map Prod.snd)) = some (parts.flatMap fun part => part.2.statements part.1) := by
  have last : statements? [] = some [] := by rw [statements?]; rfl
  induction parts with
  | nil => exact last
  | cons part parts ih =>
    have rest := ih fun other member => legible other (.tail _ member)
    have first := statements?_write (legible part (.head _))
    cases parts with
    | nil =>
      have only := first []
      rw [List.append_nil, last] at only
      rw [List.map_cons, List.map_nil, writeAll, only, List.flatMap_cons]
      rfl
    | cons next parts =>
      have apart : writeAll ((part :: next :: parts).map Prod.snd) =
          part.2.write ++ '\n' :: writeAll ((next :: parts).map Prod.snd) := rfl
      rw [apart, first, statements?_empty, rest, List.flatMap_cons]
      rfl

end Section

end Toml
end EnvelopeWarp
