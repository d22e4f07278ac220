import EnvelopeWarp.Markup.Reading

/-! Readings and computations that go through: each of their steps did, and the states between the steps are known. -/

namespace EnvelopeWarp

theorem bind_eq_ok {ε α β : Type} {first : Except ε α} {next : α → Except ε β} {value : β} :
    (first >>= next) = .ok value ↔ ∃ middle, first = .ok middle ∧ next middle = .ok value := by
  cases first with
  | error fault => simp [bind, Except.bind]
  | ok middle => simp [bind, Except.bind]

theorem Reading.of_cons_finished {α ε : Type} {item : α} {reading : Reading α ε} {items : List α}
    (finished : reading.cons item = ⟨items, none⟩) : ∃ others, items = item :: others ∧ reading = ⟨others, none⟩ := by
  obtain ⟨rfl, fault⟩ := Reading.mk.inj finished
  exact ⟨reading.items, rfl, by rw [← fault]⟩

theorem Reading.admitted_eq {α ε σ : Type} {step : σ → α → Except ε σ} {fault : Option ε} {state : σ}
    {items found : List α} : admitted step fault state items = ⟨found, none⟩ ↔
      fault = none ∧ items = found ∧ ∃ last, items.foldlM step state = .ok last := by
  induction items generalizing state found with
  | nil =>
    constructor
    · intro read
      cases read
      exact ⟨rfl, rfl, state, rfl⟩
    · rintro ⟨rfl, rfl, _⟩
      rfl
  | cons item items ih =>
    rw [admitted, List.foldlM_cons]
    cases stepped : step state item with
    | error refused =>
      constructor
      · intro read
        cases read
      · rintro ⟨_, _, last, failed⟩
        cases failed
    | ok next =>
      constructor
      · intro read
        obtain ⟨others, rfl, rest⟩ := of_cons_finished read
        obtain ⟨closed, rfl, last, run⟩ := ih.mp rest
        exact ⟨closed, rfl, last, run⟩
      · rintro ⟨closed, rfl, last, run⟩
        simp only
        rw [ih.mpr ⟨closed, rfl, last, run⟩]
        rfl

theorem Reading.fold_eq_ok {α ε β σ : Type} {step : σ → α → Except β σ} {f : ε → β} {reading : Reading α ε}
    {state last : σ} : (reading.mapFault f).fold step state = .ok last ↔
      ∃ items, reading = ⟨items, none⟩ ∧ items.foldlM step state = .ok last := by
  obtain ⟨items, fault⟩ := reading
  unfold fold mapFault
  constructor
  · intro folded
    obtain ⟨reached, run, rest⟩ := bind_eq_ok.mp folded
    cases fault with
    | none =>
      cases rest
      exact ⟨items, rfl, run⟩
    | some fault => cases rest
  · rintro ⟨found, same, run⟩
    cases same
    exact bind_eq_ok.mpr ⟨last, run, rfl⟩

end EnvelopeWarp
