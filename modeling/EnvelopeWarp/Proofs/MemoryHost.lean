import EnvelopeWarp.Host.Memory
import EnvelopeWarp.Proofs.Readings

/-! What a host in memory keeps. A file that was written is read with the text it was given, since nothing on the way to
it was changed; and a computation that only asks programs leaves all files and both streams alone. -/

namespace EnvelopeWarp
namespace Memory

/-- What a computation answers, and the memory it leaves. -/
def perform {β : Type} (memory : Memory) (action : StateM Memory β) : β × Memory :=
  action memory

@[simp] theorem perform_pure {β : Type} (memory : Memory) (value : β) : memory.perform (pure value) = (value, memory) :=
  rfl

@[simp] theorem perform_bind {β γ : Type} (memory : Memory) (first : StateM Memory β) (next : β → StateM Memory γ) :
    memory.perform (first >>= next) = (memory.perform first).2.perform (next (memory.perform first).1) :=
  rfl

@[simp] theorem perform_readText (memory : Memory) (path : String) :
    memory.perform (Host.readText path) = (memory.read path, memory) :=
  rfl

@[simp] theorem perform_isFile (memory : Memory) (path : String) :
    memory.perform (Host.isFile path) = (memory.holdsFile path, memory) :=
  rfl

@[simp] theorem perform_environment? (memory : Memory) (name : String) :
    memory.perform (Host.environment? name) = (memory.environment.lookup name, memory) :=
  rfl

@[simp] theorem perform_createDirectories (memory : Memory) (path : String) :
    memory.perform (Host.createDirectories path) = attempt (fun memory => memory.makeAll path) memory :=
  rfl

@[simp] theorem perform_writeText (memory : Memory) (path text : String) :
    memory.perform (Host.writeText path text) = attempt (fun memory => memory.write path text) memory :=
  rfl

theorem attempt_eq_ok {change : Memory → Except SystemError Memory} {memory : Memory}
    (done : (attempt change memory).1 = .ok ()) : change memory = .ok (attempt change memory).2 := by
  unfold attempt at done ⊢
  split at done
  · next changed => rw [changed]
  · cases done

/-- Programs were run, and nothing else happened. -/
def Queried (before after : Memory) : Prop :=
  ∃ calls, after = { before with calls := calls }

theorem Queried.refl (memory : Memory) : Queried memory memory :=
  ⟨memory.calls, rfl⟩

theorem Queried.trans {first second third : Memory} (before : Queried first second) (after : Queried second third) :
    Queried first third := by
  obtain ⟨_, rfl⟩ := before
  obtain ⟨calls, rfl⟩ := after
  exact ⟨calls, rfl⟩

section Files
variable {memory after : Memory} {place : Location} {path text : String}

private theorem look_put (free : memory.look place ≠ .directory) (text : Option String) :
    (memory.put place text).look place = .file text := by
  unfold look at free ⊢
  unfold put
  split at free
  · exact absurd rfl free
  · next other =>
    rw [if_neg other]
    simp

private theorem look_directory_put {here : Location} (there : memory.look here = .directory) (place : Location)
    (text : Option String) : (memory.put place text).look here = .directory := by
  unfold look at there ⊢
  split at there
  · next known => exact if_pos known
  · split at there <;> cases there

private theorem enter_put {here there : Location} {name : String} (entered : memory.enter here name = .ok there)
    (place : Location) (text : Option String) : (memory.put place text).enter here name = .ok there := by
  unfold enter at entered ⊢
  split
  · next stays => rwa [if_pos stays] at entered
  · next leads =>
    rw [if_neg leads] at entered
    split
    · next up => rwa [if_pos up] at entered
    · next down =>
      rw [if_neg down] at entered
      obtain ⟨child_, found, rest⟩ := bind_eq_ok.mp entered
      refine bind_eq_ok.mpr ⟨child_, found, ?_⟩
      cases seen : memory.look child_ with
      | directory =>
        rw [seen] at rest
        rw [look_directory_put seen]
        exact rest
      | file _ => rw [seen] at rest; cases rest
      | nothing => rw [seen] at rest; cases rest

private theorem above_put {here : Location} (found : memory.above path = .ok here) (place : Location)
    (text : Option String) : (memory.put place text).above path = .ok here := by
  have entered : ∀ (names : List String) (start : Location), names.foldlM memory.enter start = .ok here →
      names.foldlM (memory.put place text).enter start = .ok here := by
    intro names
    induction names with
    | nil => exact fun _ same => same
    | cons name names ih =>
      intro start whole
      obtain ⟨next, first, rest⟩ := bind_eq_ok.mp whole
      exact bind_eq_ok.mpr ⟨next, enter_put first place text, ih next rest⟩
  obtain ⟨_, checked, rest⟩ := bind_eq_ok.mp found
  refine bind_eq_ok.mpr ⟨(), checked, ?_⟩
  dsimp only at rest ⊢
  split
  · next empty =>
    rw [if_pos empty] at rest
    cases rest
  · next named =>
    rw [if_neg named] at rest
    exact entered _ _ rest

theorem write_eq_ok (written : memory.write path text = .ok after) :
    ∃ here name place, memory.above path = .ok here ∧ FileName.last? path = some name ∧ path.endsWith "/" = false ∧
      child here name = .ok place ∧ memory.look place ≠ .directory ∧ after = memory.put place (some text) := by
  obtain ⟨here, found, rest⟩ := bind_eq_ok.mp written
  dsimp only at rest
  split at rest
  · cases rest
  · next name last =>
    split at rest
    · cases rest
    · next open_ =>
      obtain ⟨place, inside, rest⟩ := bind_eq_ok.mp rest
      split at rest
      · cases rest
      · next free =>
        cases rest
        exact ⟨here, name, place, found, last, Bool.eq_false_iff.mpr open_, inside, free, rfl⟩

private theorem locate_of_last {here : Location} {name : String} (found : memory.above path = .ok here)
    (last : FileName.last? path = some name) : memory.locate path = child here name := by
  obtain ⟨final, leads⟩ := Option.filter_eq_some_iff.mp last
  unfold locate
  rw [found, final]
  simp only [bind, Except.bind]
  split
  · next absent => cases absent
  · next same => cases same; simp at leads
  · next same => cases same; simp at leads
  · next same => cases same; rfl

/-- A file that was written holds what it was given. -/
theorem read_write (written : memory.write path text = .ok after) : after.read path = .ok text := by
  obtain ⟨here, name, place, above, last, open_, inside, free, rfl⟩ := write_eq_ok written
  have located : (memory.put place (some text)).locate path = .ok place :=
    (locate_of_last (above_put above place (some text)) last).trans inside
  have found : (memory.put place (some text)).find path = .ok (place, .file (some text)) := by
    refine bind_eq_ok.mpr ⟨place, located, ?_⟩
    rw [look_put free]
    exact if_neg (Bool.eq_false_iff.mp open_)
  exact bind_eq_ok.mpr ⟨_, found, rfl⟩

end Files

end Memory

/-- A computation that at most runs programs. -/
def Quiet {β : Type} (action : StateM Memory β) : Prop :=
  ∀ memory : Memory, memory.Queried (memory.perform action).2

theorem quiet_pure {β : Type} (value : β) : Quiet (pure value) :=
  fun memory => .refl memory

theorem Quiet.bind {β γ : Type} {first : StateM Memory β} {next : β → StateM Memory γ} (quiet : Quiet first)
    (rest : ∀ value, Quiet (next value)) : Quiet (first >>= next) :=
  fun memory => (quiet memory).trans (rest _ _)

theorem Quiet.bind_except {β γ ε : Type} {first : ExceptT ε (StateM Memory) β} {next : β → ExceptT ε (StateM Memory) γ}
    (quiet : Quiet first.run) (rest : ∀ value, Quiet (next value).run) : Quiet (first >>= next).run := by
  rw [ExceptT.run_bind]
  apply Quiet.bind quiet
  intro outcome
  cases outcome with
  | ok value => exact rest value
  | error error => exact quiet_pure _

theorem quiet_runProgram (name : String) (arguments : List String) :
    Quiet (Host.runProgram name arguments : StateM Memory (Except SystemError Exit)) := by
  intro memory
  change memory.Queried (memory.run name arguments).2
  unfold Memory.run
  split
  · exact .refl memory
  · split
    · exact .refl memory
    · split
      · exact .refl memory
      · exact ⟨_, rfl⟩

end EnvelopeWarp
