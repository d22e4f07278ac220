import Mathlib.Data.List.Nodup
import EnvelopeWarp.Proofs.ListedElements

/-! What is written of a drawing after calls that replace path data. The events of the source follow each other as
they were read, but for the tags that are the first to carry an id for which path data was set. Such a tag keeps its
name and its other attributes. -/

namespace EnvelopeWarp

namespace Drawing

/-- Attributes with other path data, in the place of the old or else at the end. The values of the others stay as
they were written, with double quotes by their name. -/
inductive Redated (data : List Char) : List Attribute → List Attribute → Prop
  | replaced {before after : List Attribute} {old new : Attribute} (own : old.key = dataKey)
      (others : ∀ item ∈ before ++ after, item.key ≠ dataKey) (key : new.key = dataKey)
      (value : new.value = .ok data) :
      Redated data (before ++ old :: after) (before.map Attribute.requoted ++ new :: after.map Attribute.requoted)
  | added {items : List Attribute} {new : Attribute} (others : ∀ item ∈ items, item.key ≠ dataKey)
      (key : new.key = dataKey) (value : new.value = .ok data) :
      Redated data items (items.map Attribute.requoted ++ [new])

private theorem redated_withData {items : List Attribute} (distinct : (items.map Attribute.key).Nodup)
    (data : List Char) : Redated data items ((withData data items).map Attribute.requoted) := by
  by_cases known : dataKey ∈ items.map Attribute.key
  · obtain ⟨old, member, own⟩ := List.mem_map.mp known
    obtain ⟨before, after, rfl⟩ := List.append_of_mem member
    have others : ∀ item ∈ before ++ after, item.key ≠ dataKey := own ▸ ne_of_nodup_middle distinct
    have others_before : ∀ item ∈ before, item.key ≠ dataKey := fun item member =>
      others item (List.mem_append_left _ member)
    have others_after : ∀ item ∈ after, item.key ≠ dataKey := fun item member =>
      others item (List.mem_append_right _ member)
    have new : Marks.renewed data old = Attribute.ofValue dataKey data := if_pos (beq_iff_eq.mpr own)
    have shape : withData data (before ++ old :: after) = before ++ Attribute.ofValue dataKey data :: after := by
      unfold withData
      rw [if_pos (any_dataKey.mpr known)]
      change (before ++ old :: after).map (Marks.renewed data) = _
      rw [List.map_append, List.map_cons, Marks.map_renewed others_before, Marks.map_renewed others_after, new]
    rw [shape, List.map_append, List.map_cons, requoted_ofValue]
    exact .replaced own others rfl (value_ofValue _ _)
  · have others : ∀ item ∈ items, item.key ≠ dataKey := fun item member same =>
      known (same ▸ List.mem_map_of_mem member)
    unfold withData
    rw [if_neg (mt any_dataKey.mp known), List.map_append, List.map_singleton, requoted_ofValue]
    exact .added others rfl (value_ofValue _ _)

/-- A tag with other path data, as its attributes are read. -/
structure Rewritten (data : List Char) (tag edited : Tag) : Prop where
  name : edited.name = tag.name
  attributes : ∃ items others, tag.attributes = ⟨items, none⟩ ∧ edited.attributes = ⟨others, none⟩ ∧
    Redated data items others

private theorem rewritten_tagWithData {tag : Tag} {marks : Marks} (read : Marks.ofTag tag = .ok marks)
    (data : List Char) : ∃ edited, tagWithData data tag = .ok edited ∧ Rewritten data tag edited := by
  obtain ⟨items, attributes, edited, _⟩ := tagWithData_spec read data
  obtain ⟨_, _, distinct⟩ := Tag.lists_of_attributesFrom attributes
  exact ⟨_, edited, rfl, items, _, attributes, attributes_withData attributes data, redated_withData distinct data⟩

/-- A tag carries an id that none before it carries, and the last call for this id sets the data. -/
def Sets (calls : List (String × String)) (before : List Tag) (tag : Tag) (data : String) : Prop :=
  ∃ id, tag.Carries id ∧ (∀ earlier ∈ before, ¬earlier.Carries id) ∧ calls.reverse.lookup id = some data

/-- What is written of an event that stands behind some tags. -/
inductive Rendered (calls : List (String × String)) (before : List Tag) : Event → Event → Prop
  | kept {event : Event} (unset : ∀ tag ∈ event.tag?, ∀ data, ¬Sets calls before tag data) :
      Rendered calls before event event
  | rewritten {event : Event} {tag edited : Tag} {data : String} (starts : event.tag? = some tag)
      (sets : Sets calls before tag data) (rewritten : Rewritten data.toList tag edited) :
      Rendered calls before event (event.withTag edited)

/-- After calls, path data is to be written at the places where an id that was set is carried first. -/
theorem lookup_afterCalls {drawing : Drawing} {source : String} {found : List Event} {index : Index}
    (read : drawing.ReadFrom source found index) (calls : List (String × String)) {place : Nat} {data : List Char} :
    (drawing.afterCalls calls).edits.lookup place = some data ↔
      ∃ id, First (Event.tags found) id place ∧ (calls.reverse.lookup id).map String.toList = some data := by
  have written {element : Element} (member : element ∈ drawing.elements) :
      (drawing.afterCalls calls).rewrites.lookup element.place = calls.reverse.lookup element.id := by
    rw [rewrites_afterCalls read.inStep calls member, read.unwritten, List.lookup_nil, Option.or_none]
  rw [lookup_edits, Option.map_eq_some_iff]
  constructor
  · rintro ⟨text, pending, rfl⟩
    obtain ⟨revised, member, rfl, _⟩ := (read.inStep.afterCalls calls).pending _ (mem_of_lookup pending)
    rw [elements_afterCalls read.inStep] at member
    obtain ⟨element, inside, rfl⟩ := List.mem_map.mp member
    refine ⟨element.id, (read.covers.listed _ _).mp ⟨element, read.elements ▸ inside, rfl, rfl⟩, ?_⟩
    rw [← written inside, pending]
    rfl
  · rintro ⟨id, first, set⟩
    obtain ⟨element, member, rfl, rfl⟩ := (read.covers.listed _ _).mpr first
    rw [written (read.elements ▸ member)]
    exact Option.map_eq_some_iff.mp set

/-- Events are edited one by one, each at the place that the tags before it give. -/
theorem editFrom_eq {edits : List (Nat × List Char)} {events : List Event}
    (each : ∀ event ∈ events, ∀ place, ∃ written, editEvent edits place event = .ok written) (place : Nat) :
    ∃ edited, editFrom edits place events = .ok edited ∧ edited.length = events.length ∧
      ∀ position event, events[position]? = some event → ∃ written, edited[position]? = some written ∧
        editEvent edits (place + (Event.tags (events.take position)).length) event = .ok written := by
  induction events generalizing place with
  | nil => exact ⟨[], rfl, rfl, nofun⟩
  | cons event events ih =>
    obtain ⟨first, step⟩ := each event (.head _) place
    obtain ⟨others, rest, length, later⟩ := ih (fun other member => each other (.tail _ member))
      (if event.tag?.isSome then place + 1 else place)
    refine ⟨first :: others, ?_, congrArg (· + 1) length, fun position other found => ?_⟩
    · unfold editFrom
      exact bind_eq_ok.mpr ⟨first, step, bind_eq_ok.mpr ⟨others, rest, rfl⟩⟩
    · cases position with
      | zero =>
        cases found
        exact ⟨first, rfl, step⟩
      | succ position =>
        obtain ⟨written, same, edited⟩ := later position other found
        refine ⟨written, same, ?_⟩
        rw [← edited, List.take_succ_cons, Event.tags, List.filterMap_cons]
        cases event.tag? with
        | none => rfl
        | some tag =>
          have places : place + ((Event.tags (events.take position)).length + 1) =
              place + 1 + (Event.tags (events.take position)).length := by omega
          exact congrArg (fun place => editEvent edits place other) places

private theorem editEvent_eq_ok (edits : List (Nat × List Char)) {event : Event}
    (read : ∀ tag ∈ event.tag?, ∃ marks, Marks.ofTag tag = .ok marks) (place : Nat) :
    ∃ written, editEvent edits place event = .ok written := by
  unfold editEvent
  split
  · next tag data starts _ =>
    obtain ⟨marks, readable⟩ := read tag starts
    obtain ⟨edited, rewriting, _⟩ := rewritten_tagWithData readable data
    exact ⟨_, bind_eq_ok.mpr ⟨edited, rewriting, rfl⟩⟩
  · exact ⟨event, rfl⟩

/-- Where all tags can be read, all events can be edited. -/
theorem editFrom_eq_ok (edits : List (Nat × List Char)) {events : List Event}
    (read : ∀ tag ∈ Event.tags events, ∃ marks, Marks.ofTag tag = .ok marks) (place : Nat) :
    ∃ edited, editFrom edits place events = .ok edited := by
  have each : ∀ event ∈ events, ∀ place, ∃ written, editEvent edits place event = .ok written :=
    fun event member => editEvent_eq_ok edits fun tag starts => read tag (List.mem_filterMap.mpr ⟨event, member, starts⟩)
  obtain ⟨edited, editing, _⟩ := editFrom_eq each place
  exact ⟨edited, editing⟩

/-- An event is edited exactly when its tag is the first to carry an id that was set. -/
theorem rendered_editEvent {edits : List (Nat × List Char)} {calls : List (String × String)} {before : List Tag}
    {event written : Event} (read : ∀ tag ∈ event.tag?, ∃ marks, Marks.ofTag tag = .ok marks)
    (known : ∀ tag ∈ event.tag?, ∀ data : List Char, edits.lookup before.length = some data ↔
      ∃ text, Sets calls before tag text ∧ text.toList = data)
    (edited : editEvent edits before.length event = .ok written) : Rendered calls before event written := by
  unfold editEvent at edited
  split at edited
  · next tag data starts found =>
    obtain ⟨text, sets, rfl⟩ := (known tag starts data).mp found
    obtain ⟨marks, readable⟩ := read tag starts
    obtain ⟨other, rewriting, rewritten⟩ := rewritten_tagWithData readable text.toList
    rw [rewriting] at edited
    cases edited
    exact .rewritten starts sets rewritten
  · next unset =>
    cases edited
    refine .kept fun tag starts data sets => ?_
    exact unset tag data.toList starts ((known tag starts _).mpr ⟨data, sets, rfl⟩)

/-- One of the calls, made one after the other, replaces path data. -/
def Accepts (drawing : Drawing) (calls : List (String × String)) : Prop :=
  ∃ earlier call later next, calls = earlier ++ call :: later ∧
    (drawing.afterCalls earlier).setPathData call.1 call.2 = .ok next

theorem accepts_iff {drawing : Drawing} (inStep : drawing.InStep) {calls : List (String × String)} :
    drawing.Accepts calls ↔ ∃ call ∈ calls, call.1 ∈ drawing.elements.map Element.id := by
  have known {earlier : List (String × String)} {call : String × String} :
      (∃ next, (drawing.afterCalls earlier).setPathData call.1 call.2 = .ok next) ↔
        call.1 ∈ drawing.elements.map Element.id := by
    rw [exists_setPathData_iff (inStep.afterCalls earlier), (agrees_afterCalls drawing earlier).ids]
  constructor
  · rintro ⟨earlier, call, later, next, rfl, set⟩
    exact ⟨call, List.mem_append_right _ (.head _), known.mp ⟨next, set⟩⟩
  · rintro ⟨call, called, listed⟩
    obtain ⟨earlier, later, rfl⟩ := List.append_of_mem called
    obtain ⟨next, set⟩ := known.mpr listed
    exact ⟨earlier, call, later, next, rfl, set⟩

/-- Something is to be written anew when it was before, or when a call was successful. -/
theorem isModified_afterCalls {drawing : Drawing} (inStep : drawing.InStep) (calls : List (String × String)) :
    (drawing.afterCalls calls).isModified = true ↔ drawing.isModified = true ∨ drawing.Accepts calls := by
  rw [accepts_iff inStep]
  induction calls generalizing drawing with
  | nil => simp [afterCalls]
  | cons call calls ih =>
    refine (ih (inStep.afterCall call)).trans ?_
    rw [(agrees_afterCall drawing call).ids, List.exists_mem_cons_iff, ← or_assoc]
    refine or_congr_left ?_
    by_cases known : call.1 ∈ drawing.elements.map Element.id
    · obtain ⟨before, element, after, split, own⟩ := exists_split known
      have replaced := afterCall_of_split inStep split call.2
      rw [own] at replaced
      simp [replaced, known, isModified, Drawing.replaced, rewrite]
    · simp [afterCall_of_unknown inStep known, known]

theorem ReadFrom.isModified_iff {drawing : Drawing} {source : String} {found : List Event} {index : Index}
    (read : drawing.ReadFrom source found index) (calls : List (String × String)) :
    (drawing.afterCalls calls).isModified = true ↔ drawing.Accepts calls := by
  rw [isModified_afterCalls read.inStep, isModified, read.unwritten]
  simp

private theorem tags_at {events : List Event} {position : Nat} {event : Event} {tag : Tag}
    (found : events[position]? = some event) (starts : event.tag? = some tag) :
    ∃ later, Event.tags events = Event.tags (events.take position) ++ tag :: later := by
  obtain ⟨inside, rfl⟩ := List.getElem?_eq_some_iff.mp found
  refine ⟨Event.tags (events.drop (position + 1)), ?_⟩
  conv => lhs; rw [← List.take_append_drop position events, List.drop_eq_getElem_cons inside]
  unfold Event.tags
  rw [List.filterMap_append, List.filterMap_cons, starts]

theorem events_afterCalls {drawing : Drawing} {source : String} {found : List Event} {index : Index}
    (read : drawing.ReadFrom source found index) (calls : List (String × String)) :
    ∃ edited, (drawing.afterCalls calls).events = .ok edited ∧ edited.length = found.length ∧
      ∀ position event, found[position]? = some event → ∃ written, edited[position]? = some written ∧
        Rendered calls (Event.tags (found.take position)) event written := by
  have readable : ∀ event ∈ found, ∀ tag ∈ event.tag?, ∃ marks, Marks.ofTag tag = .ok marks :=
    fun event member tag starts => read.covers.read tag (List.mem_filterMap.mpr ⟨event, member, starts⟩)
  obtain ⟨edited, editing, length, each⟩ := editFrom_eq (fun event member =>
    editEvent_eq_ok (drawing.afterCalls calls).edits (readable event member)) 0
  refine ⟨edited, ?_, length, fun position event here => ?_⟩
  · rw [events_of_scan (by rw [(agrees_afterCalls drawing calls).source, read.source, read.scanned])]
    exact editing
  · obtain ⟨written, same, step⟩ := each position event here
    rw [Nat.zero_add] at step
    refine ⟨written, same, rendered_editEvent (readable event (List.mem_of_getElem? here)) ?_ step⟩
    intro tag starts data
    obtain ⟨later, tags⟩ := tags_at here starts
    rw [lookup_afterCalls read, tags]
    simp only [first_append, Option.map_eq_some_iff]
    constructor
    · rintro ⟨id, ⟨carries, alone⟩, text, last, same⟩
      exact ⟨text, ⟨id, carries, alone, last⟩, same⟩
    · rintro ⟨text, ⟨id, carries, alone, last⟩, same⟩
      exact ⟨id, ⟨carries, alone⟩, text, last, same⟩

end Drawing
end EnvelopeWarp
