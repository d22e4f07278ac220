/-! Readings that may break off. A reading holds what was found, in order, and the fault that ended
it, so a consumer meets its own errors and the fault in the order of the text. -/

namespace EnvelopeWarp

structure Reading (α ε : Type) where
  items : List α
  fault : Option ε
deriving Repr, DecidableEq

namespace Reading
variable {α β ε σ : Type}

/-- The end was reached. -/
def finished : Reading α ε :=
  ⟨[], none⟩

def stopped (fault : ε) : Reading α ε :=
  ⟨[], some fault⟩

def cons (item : α) (reading : Reading α ε) : Reading α ε :=
  ⟨item :: reading.items, reading.fault⟩

/-- Everything, unless a fault ended the reading. -/
def all (reading : Reading α ε) : Except ε (List α) :=
  match reading.fault with
  | none => .ok reading.items
  | some fault => .error fault

/-- Takes a state through the items, then meets the fault. -/
def fold (step : σ → α → Except ε σ) (state : σ) (reading : Reading α ε) : Except ε σ := do
  let last ← reading.items.foldlM step state
  match reading.fault with
  | none => return last
  | some fault => throw fault

/-- Breaks off before the first item that a state does not admit. -/
def admitted (step : σ → α → Except ε σ) (fault : Option ε) : σ → List α → Reading α ε
  | _, [] => ⟨[], fault⟩
  | state, item :: rest =>
    match step state item with
    | .ok next => (admitted step fault next rest).cons item
    | .error refused => stopped refused

def mapFault (f : ε → β) (reading : Reading α ε) : Reading α β :=
  ⟨reading.items, reading.fault.map f⟩

theorem all_eq_ok {reading : Reading α ε} {items : List α} :
    reading.all = .ok items ↔ reading.fault = none ∧ reading.items = items := by
  unfold all
  split <;> simp_all

end Reading
end EnvelopeWarp
