import Mathlib.Data.List.Forall2
import EnvelopeWarp.Proofs.EditedTags

/-! Edits as they are read back. Every element of an index stands at a place of its own, so the edits of a drawing
say for each place which path data is new. Event by event, the edited events lead from an index with the new path
data to the next one. -/

namespace EnvelopeWarp
namespace Event

/-- An event that can stand in the place of another one. -/
structure Replaces (event edited : Event) : Prop where
  writable : edited.Writable
  marked : event.Marked → edited.Marked
  nest : ∀ opened, nest opened edited = nest opened event

theorem Replaces.refl {event : Event} (writable : event.Writable) : Replaces event event :=
  ⟨writable, id, fun _ => rfl⟩

private theorem legible_of_replaces {events edited : List Event} (replaces : List.Forall₂ Replaces events edited)
    (legible : Legible events) : Legible edited := by
  induction replaces with
  | nil => exact .nil
  | cons first others ih =>
    have rest := ih legible.tail
    refine ⟨fun event member => ?_, List.isChain_cons.mpr ⟨fun second head => ?_, rest.apart⟩⟩
    · rcases List.mem_cons.mp member with rfl | later
      · exact first.writable
      · exact rest.writable event later
    · cases others with
      | nil => cases head
      | cons next _ =>
        cases head
        exact (List.isChain_cons_cons.mp legible.apart).1.imp first.marked next.marked

private theorem foldlM_nest_of_replaces {events edited : List Event} (replaces : List.Forall₂ Replaces events edited)
    (opened : List (List Char)) : edited.foldlM nest opened = events.foldlM nest opened := by
  induction replaces generalizing opened with
  | nil => rfl
  | cons first others ih =>
    rw [List.foldlM_cons, List.foldlM_cons, first.nest]
    exact congrArg _ (funext ih)

theorem nested_of_replaces {events edited : List Event} (replaces : List.Forall₂ Replaces events edited)
    (nested : Nested events) : Nested edited := by
  refine ⟨legible_of_replaces replaces nested.toLegible, ?_⟩
  rw [foldlM_nest_of_replaces replaces]
  exact nested.nested

private theorem replaces_withTag {event : Event} {tag edited : Tag} (starts : event.tag? = some tag)
    (same : edited.name = tag.name) (writable : (event.withTag edited).Writable) :
    Replaces event (event.withTag edited) ∧ (event.withTag edited).tag? = some edited := by
  cases event with
  | opening old =>
    cases starts
    refine ⟨⟨writable, id, fun opened => ?_⟩, rfl⟩
    change Except.ok (edited.name :: opened) = .ok (tag.name :: opened)
    rw [same]
  | single old => exact ⟨⟨writable, id, fun _ => rfl⟩, rfl⟩
  | _ => cases starts

end Event

namespace Drawing

def dataAt (edits : List (Nat × List Char)) (place : Nat) (written : Option String) : Option String :=
  match edits.lookup place with
  | some data => some (String.ofList data)
  | none => written

def revised (edits : List (Nat × List Char)) (element : Element) : Element :=
  { element with pathData := dataAt edits element.place element.pathData }

namespace Index

def revised (edits : List (Nat × List Char)) (index : Index) : Index :=
  { index with elements := index.elements.map (Drawing.revised edits) }

theorem addTag_eq_ok {index next : Index} {tag : Tag} : index.addTag tag = .ok next ↔
    ∃ marks size, Marks.ofTag tag = .ok marks ∧ index.size tag marks = .ok size ∧
      next = { index.list tag marks with tags := index.tags + 1, root := some size } := by
  constructor
  · intro added
    obtain ⟨marks, read, rest⟩ := bind_eq_ok.mp added
    obtain ⟨size, sized, same⟩ := bind_eq_ok.mp rest
    cases same
    exact ⟨marks, size, read, sized, rfl⟩
  · rintro ⟨marks, size, read, sized, rfl⟩
    exact bind_eq_ok.mpr ⟨marks, read, bind_eq_ok.mpr ⟨size, sized, rfl⟩⟩

private theorem list_revised {tag edited : Tag} (same : edited.name = tag.name) (edits : List (Nat × List Char))
    (index : Index) (marks : Marks) :
    (index.revised edits).list edited (marks.withData (dataAt edits index.tags marks.data)) =
      (index.list tag marks).revised edits := by
  have local_name : edited.localName = tag.localName := by
    unfold Tag.localName
    rw [same]
  obtain ⟨id, data, width, height⟩ := marks
  cases id with
  | none => rfl
  | some id =>
    unfold list
    simp only [Marks.withData, revised, local_name]
    split
    · rfl
    · rw [List.map_append, List.length_map]
      rfl

private theorem addTag_revised {edits : List (Nat × List Char)} {index next : Index} {tag edited : Tag} {marks : Marks}
    (same : edited.name = tag.name) (read : Marks.ofTag tag = .ok marks)
    (again : Marks.ofTag edited = .ok (marks.withData (dataAt edits index.tags marks.data)))
    (added : index.addTag tag = .ok next) : (index.revised edits).addTag edited = .ok (next.revised edits) := by
  obtain ⟨found, size, found_read, sized, rfl⟩ := addTag_eq_ok.mp added
  rw [read] at found_read
  cases found_read
  refine addTag_eq_ok.mpr ⟨_, size, again, ?_, ?_⟩
  · rw [← sized]
    unfold Index.size Tag.localName
    rw [same]
    rfl
  · rw [list_revised same]
    rfl

theorem add_of_tag {event : Event} {tag : Tag} (starts : event.tag? = some tag) (index : Index) :
    index.add event = index.addTag tag := by
  unfold add
  rw [starts]

theorem add_of_no_tag {event : Event} (none_starts : event.tag? = none) (index : Index) : index.add event = .ok index := by
  unfold add
  rw [none_starts]

private theorem tags_add {index next : Index} {event : Event} (added : index.add event = .ok next) :
    next.tags = if event.tag?.isSome then index.tags + 1 else index.tags := by
  cases starts : event.tag? with
  | some tag =>
    rw [add_of_tag starts] at added
    obtain ⟨_, _, _, _, rfl⟩ := addTag_eq_ok.mp added
    rfl
  | none =>
    rw [add_of_no_tag starts] at added
    cases added
    rfl

end Index

open Event (Unquoted Replaces)

/-- No attribute of the events has a name with a quote in it. -/
def Plain (events : List Event) : Prop :=
  ∀ tag ∈ Event.tags events, Unquoted tag.attributes.items

/-- No attribute of a tag that edits replace has a name with a quote in it. The first tag stands at the given place. -/
def PlainFrom (edits : List (Nat × List Char)) (place : Nat) (events : List Event) : Prop :=
  ∀ offset tag, (Event.tags events)[offset]? = some tag → edits.lookup (place + offset) ≠ none →
    Unquoted tag.attributes.items

theorem Plain.plainFrom {events : List Event} (plain : Plain events) (edits : List (Nat × List Char)) (place : Nat) :
    PlainFrom edits place events :=
  fun _ tag found _ => plain tag (List.mem_of_getElem? found)

private theorem plainFrom_iff {edits : List (Nat × List Char)} {place : Nat} {events : List Event} :
    PlainFrom edits place events ↔ ∀ entry ∈ (Event.tags events).zipIdx place,
      edits.lookup entry.2 ≠ none → Unquoted entry.1.attributes.items := by
  constructor
  · rintro plain ⟨tag, position⟩ member replaced
    obtain ⟨reached, found⟩ := List.mk_mem_zipIdx_iff_le_and_getElem?_sub.mp member
    exact plain (position - place) tag found (by rwa [Nat.add_sub_cancel' reached])
  · intro all offset tag found replaced
    exact all (tag, place + offset) (List.mk_add_mem_zipIdx_iff_getElem?.mpr found) replaced

instance (edits : List (Nat × List Char)) (place : Nat) (events : List Event) : Decidable (PlainFrom edits place events) :=
  decidable_of_iff _ plainFrom_iff.symm

theorem dataAt_of_lookup {edits : List (Nat × List Char)} {place : Nat} {found : Option (List Char)}
    (known : edits.lookup place = found) (written : Option String) :
    dataAt edits place written = (found.map String.ofList).or written := by
  unfold dataAt
  rw [known]
  cases found <;> rfl

/-- An event that an index takes in can be edited, and the index with the new path data takes in the edited event. -/
theorem editEvent_spec (edits : List (Nat × List Char)) {index next : Index} {event : Event}
    (writable : event.Writable)
    (plain : ∀ tag ∈ event.tag?, edits.lookup index.tags ≠ none → Unquoted tag.attributes.items)
    (added : index.add event = .ok next) : ∃ edited, editEvent edits index.tags event = .ok edited ∧
      Replaces event edited ∧ (index.revised edits).add edited = .ok (next.revised edits) := by
  unfold editEvent
  cases starts : event.tag? with
  | none =>
    rw [Index.add_of_no_tag starts] at added
    cases added
    exact ⟨event, rfl, .refl writable, Index.add_of_no_tag starts _⟩
  | some tag =>
    rw [Index.add_of_tag starts] at added
    obtain ⟨marks, _, read, _⟩ := Index.addTag_eq_ok.mp added
    cases found : edits.lookup index.tags with
    | none =>
      refine ⟨event, rfl, .refl writable, ?_⟩
      rw [Index.add_of_tag starts]
      apply Index.addTag_revised rfl read _ added
      rw [dataAt_of_lookup found]
      exact read
    | some data =>
      obtain ⟨items, attributes, edited, again⟩ := tagWithData_spec read data
      have unquoted : Unquoted items := by
        have all := plain tag starts (by rw [found]; exact Option.some_ne_none _)
        rwa [attributes] at all
      have lists := (Tag.lists_of_attributesFrom attributes).1
      have rewritten := Event.writable_withData writable starts lists unquoted data
      have named : (Tag.ofAttributes tag.name (withData data items)).name = tag.name := rfl
      obtain ⟨replaces, tagged⟩ := Event.replaces_withTag starts named rewritten
      refine ⟨_, bind_eq_ok.mpr ⟨_, edited, rfl⟩, replaces, ?_⟩
      rw [Index.add_of_tag tagged]
      apply Index.addTag_revised named read _ added
      rw [dataAt_of_lookup found]
      exact again

theorem editFrom_spec (edits : List (Nat × List Char)) {events : List Event} {index last : Index}
    (writable : ∀ event ∈ events, event.Writable) (plain : PlainFrom edits index.tags events)
    (run : events.foldlM Index.add index = .ok last) : ∃ edited, editFrom edits index.tags events = .ok edited ∧
      List.Forall₂ Replaces events edited ∧
        edited.foldlM Index.add (index.revised edits) = .ok (last.revised edits) := by
  induction events generalizing index with
  | nil =>
    cases run
    exact ⟨[], rfl, .nil, rfl⟩
  | cons event events ih =>
    obtain ⟨next, added, rest⟩ := bind_eq_ok.mp run
    have plain_first : ∀ tag ∈ event.tag?, edits.lookup index.tags ≠ none → Unquoted tag.attributes.items := by
      intro tag starts
      apply plain 0
      rw [Event.tags, List.filterMap_cons_some starts]
      rfl
    have plain_rest : PlainFrom edits next.tags events := by
      intro offset tag found replaced
      rw [Index.tags_add added] at replaced
      cases starts : event.tag? with
      | none =>
        rw [starts] at replaced
        refine plain offset tag ?_ replaced
        rw [Event.tags, List.filterMap_cons_none starts]
        exact found
      | some own =>
        rw [starts, Option.isSome_some, if_pos rfl, Nat.add_right_comm] at replaced
        refine plain (offset + 1) tag ?_ replaced
        rw [Event.tags, List.filterMap_cons_some starts]
        exact found
    obtain ⟨first, edited_first, replaces, step⟩ := editEvent_spec edits (writable event (.head _)) plain_first added
    obtain ⟨others, edited_rest, replaces_rest, steps⟩ :=
      ih (fun other member => writable other (.tail _ member)) plain_rest rest
    rw [Index.tags_add added] at edited_rest
    refine ⟨first :: others, ?_, .cons replaces replaces_rest, bind_eq_ok.mpr ⟨_, step, steps⟩⟩
    unfold editFrom
    exact bind_eq_ok.mpr ⟨first, edited_first, bind_eq_ok.mpr ⟨others, edited_rest, rfl⟩⟩

end Drawing
end EnvelopeWarp
