import EnvelopeWarp.Proofs.TextRuns
import EnvelopeWarp.Text.Blank

/-! What is left of a text without the blanks around it. There is one such part, however the text is cut: it has no
blank at either end, and before and behind it there is nothing but blanks. -/

namespace EnvelopeWarp

theorem Free.of_front {class_ : Char → Bool} {word text : List Char} (free : Free class_ text) (front : word <+: text) :
    Free class_ word := by
  obtain ⟨rest, rfl⟩ := front
  cases word with
  | nil => exact Free.nil class_
  | cons c word => exact Free.cons (free c rfl)

namespace Text

structure Trims (text core : List Char) : Prop where
  parts : ∃ before after, text = before ++ (core ++ after) ∧ ∀ c ∈ before ++ after, isBlank c = true
  start : Free isBlank core
  finish : Free isBlank core.reverse

variable {text core : List Char}

theorem Trims.eq_trim (trims : Trims text core) : trim text = core := by
  obtain ⟨⟨before, after, rfl, blank⟩, start, finish⟩ := trims
  obtain ⟨leading, trailing⟩ := List.forall_mem_append.mp blank
  cases core with
  | nil =>
    have nothing : trimStart (before ++ ([] ++ after)) = [] := by
      simpa [trimStart] using dropWhile_of_free blank (Free.nil isBlank)
    simp only [trim, trimEnd, nothing, List.reverse_nil, List.dropWhile_nil]
  | cons c core =>
    have shorter : trimStart (before ++ (c :: core ++ after)) = c :: core ++ after :=
      dropWhile_of_free leading (Free.cons (start c rfl))
    have backward : ∀ d ∈ after.reverse, isBlank d = true := fun d member => trailing d (List.mem_reverse.mp member)
    simp only [trim, trimEnd, shorter, List.reverse_append, dropWhile_of_free backward finish, List.reverse_reverse]

theorem trims_trim (text : List Char) : Trims text (trim text) := by
  let behind := ((trimStart text).reverse.takeWhile isBlank).reverse
  have back : trim text ++ behind = trimStart text := by
    rw [trim, trimEnd, ← List.reverse_append, List.takeWhile_append_dropWhile, List.reverse_reverse]
  refine ⟨⟨text.takeWhile isBlank, behind, ?_, ?_⟩, (free_dropWhile isBlank text).of_front ⟨behind, back⟩, ?_⟩
  · rw [back, trimStart, List.takeWhile_append_dropWhile]
  · intro c member
    rcases List.mem_append.mp member with leading | trailing
    · exact List.all_eq_true.mp List.all_takeWhile c leading
    · exact List.all_eq_true.mp List.all_takeWhile c (List.mem_reverse.mp trailing)
  · rw [trim, trimEnd, List.reverse_reverse]
    exact free_dropWhile isBlank _

private theorem trim_eq_iff : trim text = core ↔ Trims text core :=
  ⟨fun same => same ▸ trims_trim text, Trims.eq_trim⟩

theorem trim_self (plain : ∀ c ∈ text, isBlank c = false) : trim text = text := by
  apply Trims.eq_trim
  refine ⟨⟨[], [], by simp, nofun⟩, ?_, ?_⟩
  · intro c head
    exact plain c (List.mem_of_mem_head? head)
  · intro c head
    exact plain c (List.mem_reverse.mp (List.mem_of_mem_head? head))

theorem Trims.of_blanks {blanks : List Char} (blank : ∀ c ∈ blanks, isBlank c = true)
    (plain : ∀ c ∈ core, isBlank c = false) : Trims (blanks ++ core) core := by
  have alone := trim_eq_iff.mp (trim_self plain)
  exact ⟨⟨blanks, [], by simp, by simpa using blank⟩, alone.start, alone.finish⟩

/-- Where a text ends without a blank, all blanks around its core come first. -/
theorem Trims.leading (trims : Trims text core) (ended : Free isBlank text.reverse) :
    ∃ blanks, text = blanks ++ core ∧ ∀ c ∈ blanks, isBlank c = true := by
  obtain ⟨⟨before, after, rfl, blank⟩, _, _⟩ := trims
  obtain ⟨leading, trailing⟩ := List.forall_mem_append.mp blank
  cases last : after.reverse with
  | nil =>
    refine ⟨before, ?_, leading⟩
    rw [List.reverse_eq_nil_iff.mp last, List.append_nil]
  | cons c others =>
    have inside : c ∈ after := List.mem_reverse.mp (last ▸ List.mem_cons_self)
    have plain := ended c (by simp [last])
    rw [trailing c inside] at plain
    cases plain

end Text
end EnvelopeWarp
