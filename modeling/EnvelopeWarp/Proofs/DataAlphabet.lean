import EnvelopeWarp.Proofs.PathGrammar

/-! The characters of path data. What a token, a command or a sentence takes off the front of a text is made of
separators, command letters and parts of numbers; no other character occurs in data that is accepted. -/

namespace EnvelopeWarp

/-- The characters that literals are made of. -/
def Literal.Part (c : Char) : Prop :=
  c.isDigit = true ∨ c ∈ ['+', '-', '.', 'e', 'E']

private theorem part_of_isSign {c : Char} (sign : isSign c = true) : Literal.Part c := by
  rcases Bool.or_eq_true_iff.mp sign with plus | minus
  · exact .inr (by simp [beq_iff_eq.mp plus])
  · exact .inr (by simp [beq_iff_eq.mp minus])

theorem Power.Sound.part {power : Power} (sound : power.Sound) : ∀ c ∈ power.text, Literal.Part c := by
  intro c member
  rcases List.mem_cons.mp member with rfl | member
  · exact .inr (by rcases sound.mark with mark | mark <;> simp [mark])
  rcases List.mem_append.mp member with signed | digit
  · exact part_of_isSign (sound.sign c (Option.mem_toList.mp signed))
  · exact .inl (sound.digits c digit)

theorem Literal.Sound.part {literal : Literal} (sound : literal.Sound) : ∀ c ∈ literal.text, Part c := by
  intro c member
  rcases List.mem_append.mp member with member | powered
  · rcases List.mem_append.mp member with member | fractional
    · rcases List.mem_append.mp member with signed | digit
      · exact part_of_isSign (sound.sign c (Option.mem_toList.mp signed))
      · exact .inl (sound.whole c digit)
    · cases fraction : literal.fraction with
      | none => simp [fraction, fractionText] at fractional
      | some digits =>
        rw [fraction] at fractional
        rcases List.mem_cons.mp fractional with rfl | digit
        · exact .inr (by simp)
        · exact .inl (sound.fraction digits fraction c digit)
  · cases power : literal.power with
    | none => simp [power] at powered
    | some found =>
      rw [power] at powered
      exact (sound.power found power).part c powered

namespace Grammar

/-- The characters of path data. -/
def Letter (c : Char) : Prop :=
  c ∈ separators ∨ arguments? c ≠ none ∨ Literal.Part c

/-- A text is a word of such characters and a rest. -/
def Consumes (text rest : List Char) : Prop :=
  ∃ word, text = word ++ rest ∧ ∀ c ∈ word, Letter c

theorem Consumes.trans {text middle rest : List Char} (first : Consumes text middle) (second : Consumes middle rest) :
    Consumes text rest := by
  obtain ⟨word, rfl, letters⟩ := first
  obtain ⟨more, rfl, others⟩ := second
  exact ⟨word ++ more, (List.append_assoc _ _ _).symm, fun c member => (List.mem_append.mp member).elim (letters c) (others c)⟩

private theorem consumes_blanks {blanks : List Char} (separates : Separates blanks) (text : List Char) :
    Consumes (blanks ++ text) text :=
  ⟨blanks, rfl, fun c member => .inl (separates c member)⟩

private theorem consumes_one {c : Char} (letter : Letter c) (text : List Char) : Consumes (c :: text) text :=
  ⟨[c], rfl, fun _ member => List.mem_singleton.mp member ▸ letter⟩

theorem Token.consumes {kind : Kind} {text rest : List Char} (token : Token kind text rest) : Consumes text rest := by
  cases token with
  | number separates longest =>
    obtain ⟨literal, sound, rfl⟩ := mem_literal.mp longest.belongs
    exact (consumes_blanks separates _).trans ⟨_, longest.split, fun c member => .inr (.inr (sound.part c member))⟩
  | @flag _ _ c separates digit =>
    have letter : Literal.Part c := .inl (by rcases digit with rfl | rfl <;> rfl)
    exact (consumes_blanks separates _).trans (consumes_one (.inr (.inr letter)) _)

theorem Tokens.consumes {kinds : List Kind} {text rest : List Char} (tokens : Tokens kinds text rest) :
    Consumes text rest := by
  induction tokens with
  | nil => exact ⟨[], rfl, fun _ member => nomatch member⟩
  | cons first _ ih => exact first.consumes.trans ih

theorem Step.consumes {previous : Option Char} {letter : Char} {text rest : List Char}
    (step : Step previous text letter rest) : Consumes text rest := by
  cases step with
  | lettered shape _ tokens =>
    have command : Letter letter := .inr (.inl (shape ▸ Option.some_ne_none _))
    exact (consumes_one command _).trans tokens.consumes
  | repeated _ _ _ tokens => exact tokens.consumes

theorem Sentence.letters {previous : Option Char} {text : List Char} (sentence : Sentence previous text) :
    ∀ c ∈ text, Letter c := by
  induction sentence with
  | finished separates => exact fun c member => .inl (separates c member)
  | command separates step others ih =>
    obtain ⟨word, split, letters⟩ := (consumes_blanks separates _).trans step.consumes
    rw [split]
    exact fun c member => (List.mem_append.mp member).elim (letters c) (ih c)

/-- The words for doubles that are not finite have other characters in them. -/
theorem not_letter {c : Char} (word : c = 'n' ∨ c = 'N') : ¬Letter c := by
  unfold Letter Literal.Part
  rcases word with rfl | rfl <;> decide

end Grammar

/-- Path data with any other character in it is refused. -/
theorem Path.parse_error_of_mem {α : Type} [Scalar α] {data : String} {c : Char} (member : c ∈ data.toList)
    (other : ¬Grammar.Letter c) : ∃ error, (parse data : Except PathError (Path α)) = .error error := by
  cases read : (parse data : Except PathError (Path α)) with
  | error error => exact ⟨error, rfl⟩
  | ok path =>
    unfold parse ofData PathData.commands at read
    split at read
    · next commands found =>
      split at found
      · next others accepted =>
        exact absurd ((PathData.commandsAfter_iff_sentence.mp ⟨_, accepted⟩).letters c member) other
      · cases found
    · cases read

end EnvelopeWarp
