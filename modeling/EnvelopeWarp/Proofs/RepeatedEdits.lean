import EnvelopeWarp.Proofs.RenderedEvents

/-! Edits made twice. Tags are edited one by one, each by the edit for its place. A tag that was edited is read with its
values between double quotes, so to edit it again gives the tag that the later edit alone would have given. -/

namespace EnvelopeWarp

namespace Event

private theorem tag?_withTag {event : Event} {tag : Tag} (starts : event.tag? = some tag) (edited : Tag) :
    (event.withTag edited).tag? = some edited := by
  cases event <;> first | rfl | cases starts

private theorem withTag_self {event : Event} {tag : Tag} (starts : event.tag? = some tag) :
    event.withTag tag = event := by
  cases event <;> cases starts <;> rfl

end Event

namespace Attribute

end Attribute

namespace Drawing

/-- The tag at a place, edited by the edit for this place. -/
def editTag (edits : List (Nat × List Char)) (place : Nat) (tag : Tag) : Except DrawingError Tag :=
  match edits.lookup place with
  | some data => tagWithData data tag
  | none => .ok tag

private theorem editTag_of_some {edits : List (Nat × List Char)} {place : Nat} {data : List Char}
    (found : edits.lookup place = some data) (tag : Tag) : editTag edits place tag = tagWithData data tag := by
  unfold editTag
  rw [found]

private theorem editTag_of_none {edits : List (Nat × List Char)} {place : Nat} (absent : edits.lookup place = none)
    (tag : Tag) : editTag edits place tag = .ok tag := by
  unfold editTag
  rw [absent]

theorem editTag_spec {tag : Tag} {marks : Marks} (read : Marks.ofTag tag = .ok marks) (edits : List (Nat × List Char))
    (place : Nat) : ∃ written data, editTag edits place tag = .ok written ∧
      Marks.ofTag written = .ok (marks.withData data) := by
  cases found : edits.lookup place with
  | none => exact ⟨tag, marks.data, editTag_of_none found tag, read⟩
  | some data =>
    obtain ⟨items, _, edited, again⟩ := tagWithData_spec read data
    exact ⟨_, _, (editTag_of_some found tag).trans edited, again⟩

private theorem editEvent_of_tag {event : Event} {tag : Tag} (starts : event.tag? = some tag)
    {edits : List (Nat × List Char)} {place : Nat} {edited : Event} : editEvent edits place event = .ok edited ↔
      ∃ written, editTag edits place tag = .ok written ∧ edited = event.withTag written := by
  unfold editEvent
  rw [starts]
  cases found : edits.lookup place with
  | none =>
    simp only [editTag_of_none found, Except.ok.injEq, exists_eq_left', Event.withTag_self starts]
    exact eq_comm
  | some data =>
    rw [editTag_of_some found]
    refine bind_eq_ok.trans (exists_congr fun written => and_congr_right fun _ => ?_)
    exact ⟨fun same => (Except.ok.inj same).symm, fun same => congrArg Except.ok same.symm⟩

private theorem editEvent_of_no_tag {event : Event} (none_starts : event.tag? = none) (edits : List (Nat × List Char))
    (place : Nat) : editEvent edits place event = .ok event := by
  unfold editEvent
  rw [none_starts]

theorem editFrom_cons_eq_ok {edits : List (Nat × List Char)} {place : Nat} {event : Event} {events edited : List Event} :
    editFrom edits place (event :: events) = .ok edited ↔ ∃ first others, editEvent edits place event = .ok first ∧
      editFrom edits (if event.tag?.isSome then place + 1 else place) events = .ok others ∧ edited = first :: others := by
  constructor
  · intro both
    rw [editFrom] at both
    obtain ⟨first, step, rest⟩ := bind_eq_ok.mp both
    obtain ⟨others, steps, same⟩ := bind_eq_ok.mp rest
    cases same
    exact ⟨first, others, step, steps, rfl⟩
  · rintro ⟨first, others, step, steps, rfl⟩
    rw [editFrom]
    exact bind_eq_ok.mpr ⟨first, step, bind_eq_ok.mpr ⟨others, steps, rfl⟩⟩

/-- The tags of edited events are the edited tags, each by the edit for its own place. -/
theorem tags_editFrom {edits : List (Nat × List Char)} {events edited : List Event} {place : Nat}
    (editing : editFrom edits place events = .ok edited) {offset : Nat} {tag : Tag}
    (found : (Event.tags events)[offset]? = some tag) :
    ∃ written, (Event.tags edited)[offset]? = some written ∧ editTag edits (place + offset) tag = .ok written := by
  induction events generalizing place offset edited with
  | nil => cases found
  | cons event events ih =>
    obtain ⟨first, others, step, steps, rfl⟩ := editFrom_cons_eq_ok.mp editing
    cases starts : event.tag? with
    | none =>
      rw [Event.tags, List.filterMap_cons_none starts] at found
      rw [editEvent_of_no_tag starts] at step
      cases step
      rw [starts] at steps
      obtain ⟨written, same, own⟩ := ih steps found
      refine ⟨written, ?_, own⟩
      rw [Event.tags, List.filterMap_cons_none starts]
      exact same
    | some own =>
      rw [Event.tags, List.filterMap_cons_some starts] at found
      rw [starts] at steps
      obtain ⟨new, edited_own, rfl⟩ := (editEvent_of_tag starts).mp step
      rw [Event.tags, List.filterMap_cons_some (Event.tag?_withTag starts new)]
      cases offset with
      | zero =>
        cases found
        exact ⟨new, rfl, edited_own⟩
      | succ offset =>
        obtain ⟨written, same, later⟩ := ih steps found
        have places : place + (offset + 1) = place + 1 + offset := by omega
        exact ⟨written, same, places ▸ later⟩

/-- The later edits, and the earlier ones where the later have none. -/
def Follows (earlier later all : List (Nat × List Char)) : Prop :=
  ∀ place, all.lookup place = (later.lookup place).or (earlier.lookup place)

variable {earlier later all : List (Nat × List Char)}

end Drawing
end EnvelopeWarp
