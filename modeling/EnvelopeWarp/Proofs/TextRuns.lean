/-! Runs of characters of one class at the front of a text, which end where the text goes on without it. -/

namespace EnvelopeWarp

/-- No character at the front of a text belongs to a class. -/
def Free (class_ : Char → Bool) (text : List Char) : Prop :=
  ∀ c ∈ text.head?, class_ c = false

theorem Free.nil (class_ : Char → Bool) : Free class_ [] :=
  fun _ head => nomatch head

theorem Free.cons {class_ : Char → Bool} {c : Char} {text : List Char} (other : class_ c = false) :
    Free class_ (c :: text) :=
  fun _ head => Option.some.inj head ▸ other

theorem Free.dropWhile {class_ : Char → Bool} {text : List Char} (free : Free class_ text) :
    text.dropWhile class_ = text := by
  cases text with
  | nil => rfl
  | cons c text => simp [free c rfl]

theorem free_of_not_mem {c : Char} {text : List Char} (absent : c ∉ text) : Free (· == c) text := by
  intro d head
  have other : d ≠ c := fun same => absent (same ▸ List.mem_of_head? head)
  simpa using other

theorem takeWhile_of_free {class_ : Char → Bool} {run rest : List Char}
    (all : ∀ c ∈ run, class_ c = true) (free : Free class_ rest) : (run ++ rest).takeWhile class_ = run := by
  rw [List.takeWhile_append_of_pos all]
  cases rest with
  | nil => simp
  | cons c rest => simp [free c rfl]

theorem dropWhile_of_free {class_ : Char → Bool} {run rest : List Char}
    (all : ∀ c ∈ run, class_ c = true) (free : Free class_ rest) : (run ++ rest).dropWhile class_ = rest := by
  rw [List.dropWhile_append_of_pos all]
  cases rest with
  | nil => rfl
  | cons c rest => simp [free c rfl]

theorem free_dropWhile (class_ : Char → Bool) (text : List Char) : Free class_ (text.dropWhile class_) := by
  intro c head
  have ended := List.head?_dropWhile_not class_ text
  rw [Option.mem_def.mp head] at ended
  simpa using ended

section Until
variable {ends : Char → Bool} {run rest : List Char}

theorem takeWhile_until (plain : ∀ c ∈ run, ends c = false) (ended : ∀ c ∈ rest.head?, ends c = true) :
    (run ++ rest).takeWhile (fun c => !ends c) = run := by
  apply takeWhile_of_free
  · intro c member
    simp [plain c member]
  · intro c head
    simp [ended c head]

theorem dropWhile_until (plain : ∀ c ∈ run, ends c = false) (ended : ∀ c ∈ rest.head?, ends c = true) :
    (run ++ rest).dropWhile (fun c => !ends c) = rest := by
  apply dropWhile_of_free
  · intro c member
    simp [plain c member]
  · intro c head
    simp [ended c head]

theorem plain_takeWhile (ends : Char → Bool) (text : List Char) :
    ∀ c ∈ text.takeWhile fun c => !ends c, ends c = false := by
  intro c member
  simpa using List.all_eq_true.mp List.all_takeWhile c member

theorem ended_dropWhile (ends : Char → Bool) (text : List Char) :
    ∀ c ∈ (text.dropWhile fun c => !ends c).head?, ends c = true := by
  intro c head
  have ended := List.head?_dropWhile_not (fun c => !ends c) text
  rw [Option.mem_def.mp head] at ended
  simpa using ended

end Until
end EnvelopeWarp
