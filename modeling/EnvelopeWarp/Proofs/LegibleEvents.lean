import Mathlib.Data.List.Chain
import EnvelopeWarp.Proofs.MarkupText

/-! Events that can be read back from what is written of them. A text is cut into such events, and the text that is
written of such events is cut into the same events. A mark of the byte order is no part of a text, so a run of text
at the front may be read back without one; the tags and their nesting are read back in any case. -/

namespace EnvelopeWarp
namespace Event

/-- Events that stay apart when they are written one after the other: no run of text follows another one. -/
structure Legible (events : List Event) : Prop where
  writable : ∀ event ∈ events, event.Writable
  apart : events.IsChain fun first second => first.Marked ∨ second.Marked

theorem Legible.nil : Legible [] :=
  ⟨fun _ member => (nomatch member), .nil⟩

theorem Legible.tail {event : Event} {events : List Event} (legible : Legible (event :: events)) : Legible events :=
  ⟨fun other member => legible.writable other (.tail _ member), (List.isChain_cons.mp legible.apart).2⟩

theorem Legible.ended {event : Event} {events : List Event} (legible : Legible (event :: events)) :
    event.Marked ∨ Ended (events.flatMap write) := by
  cases events with
  | nil => exact .inr fun c head => nomatch head
  | cons second events =>
    refine (List.isChain_cons_cons.mp legible.apart).1.imp_right fun marked => ?_
    rw [List.flatMap_cons]
    exact ended_write marked _

/-- The events of a text are legible, and a text that starts with a mark starts with a marked event. -/
theorem legible_of_split {text : List Char} {events : List Event} (cut : split text = ⟨events, none⟩) :
    Legible events ∧ (Ended text → ∀ event ∈ events.head?, event.Marked) := by
  fun_induction split text generalizing events with
  | case1 =>
    cases cut
    exact ⟨.nil, fun _ event head => nomatch head⟩
  | case2 => cases cut
  | case3 first rest event after taken ih =>
    obtain ⟨events, rfl, rest_cut⟩ := Reading.of_cons_finished cut
    obtain ⟨writable, starts⟩ := writable_take taken
    obtain ⟨legible, next⟩ := ih rest_cut
    refine ⟨⟨?_, ?_⟩, ?_⟩
    · intro other member
      rcases List.mem_cons.mp member with rfl | later
      · exact writable
      · exact legible.writable other later
    · refine List.isChain_cons.mpr ⟨fun second head => ?_, legible.apart⟩
      rcases starts with marked | ⟨_, ended⟩
      · exact .inl marked
      · exact .inr (next ended second head)
    · intro ended other head
      cases head
      rcases starts with marked | ⟨plain, _⟩
      · exact marked
      · rw [ended first rfl] at plain
        cases plain

private theorem split_write {events : List Event} (legible : Legible events) :
    split (events.flatMap write) = ⟨events, none⟩ := by
  induction events with
  | nil => rw [List.flatMap_nil, split]; rfl
  | cons event events ih =>
    obtain ⟨first, rest, whole, taken⟩ := takes_write (legible.writable event (.head _)) legible.ended
    rw [List.flatMap_cons, whole, split]
    split
    · next fault failed =>
      rw [taken] at failed
      cases failed
    · next next after same =>
      rw [taken] at same
      cases same
      rw [ih legible.tail]
      rfl

def tags (events : List Event) : List Tag :=
  events.filterMap tag?

/-- What is needed of events so that a text with them is read: they are legible, and their tags are nested. -/
structure Nested (events : List Event) : Prop extends Legible events where
  nested : ∃ opened, events.foldlM nest [] = .ok opened

/-- A text that is scanned to its end is cut into events, and these are nested. -/
theorem split_of_scan {text : List Char} {events : List Event} (scanned : scan text = ⟨events, none⟩) :
    split (dropOrderMark text) = ⟨events, none⟩ ∧ ∃ opened, events.foldlM nest [] = .ok opened := by
  obtain ⟨closed, same, nested⟩ := Reading.admitted_eq.mp scanned
  rw [← same, ← closed]
  exact ⟨rfl, nested⟩

theorem nested_of_scan {text : List Char} {events : List Event} (scanned : scan text = ⟨events, none⟩) :
    Nested events := by
  obtain ⟨cut, nested⟩ := split_of_scan scanned
  exact ⟨(legible_of_split cut).1, nested⟩

private theorem dropOrderMark_of_ended {text : List Char} (ended : Ended text) : dropOrderMark text = text := by
  cases text with
  | nil => rfl
  | cons c rest =>
    have other : c ≠ '\ufeff' := by
      rintro rfl
      cases ended _ rfl
    exact if_neg other

/-- Events that start with a mark of the byte order, which stands in a run of text. -/
def OrderMarked (events : List Event) : Prop :=
  ∃ content others, events = text ('\ufeff' :: content) :: others

/-- The events without a mark of the byte order that they start with. -/
def unmarked : List Event → List Event
  | text (c :: content) :: events =>
    if c = '\ufeff' then
      if content.isEmpty then events else text content :: events
    else text (c :: content) :: events
  | events => events

theorem unmarked_of_not {events : List Event} (other : ¬OrderMarked events) : unmarked events = events := by
  unfold unmarked
  split
  · next c content events =>
    exact if_neg fun mark => other ⟨content, events, by rw [mark]⟩
  · rfl

theorem write_of_orderMarked {events : List Event} (marked : OrderMarked events) :
    events.flatMap write = '\ufeff' :: (unmarked events).flatMap write := by
  obtain ⟨content, events, rfl⟩ := marked
  cases content <;> rfl

theorem tags_unmarked (events : List Event) : tags (unmarked events) = tags events := by
  unfold unmarked
  split
  · split
    · split <;> rfl
    · rfl
  · rfl

private theorem nest_unmarked (events : List Event) (opened : List (List Char)) :
    (unmarked events).foldlM nest opened = events.foldlM nest opened := by
  unfold unmarked
  split
  · split
    · split <;> rfl
    · rfl
  · rfl

private theorem legible_unmarked {events : List Event} (legible : Legible events) : Legible (unmarked events) := by
  by_cases marked : OrderMarked events
  · obtain ⟨content, events, rfl⟩ := marked
    cases content with
    | nil => exact legible.tail
    | cons c content =>
      refine ⟨fun event member => ?_, List.isChain_cons.mpr (List.isChain_cons.mp legible.apart)⟩
      rcases List.mem_cons.mp member with rfl | later
      · obtain ⟨_, run⟩ := legible.writable _ (.head _)
        exact ⟨List.cons_ne_nil _ _, fun d inside => run d (.tail _ inside)⟩
      · exact legible.writable event (.tail _ later)
  · rwa [unmarked_of_not marked]

private theorem dropOrderMark_write {events : List Event} (legible : Legible events) :
    dropOrderMark (events.flatMap write) = (unmarked events).flatMap write := by
  by_cases marked : OrderMarked events
  · rw [write_of_orderMarked marked, dropOrderMark, if_pos rfl]
  · rw [unmarked_of_not marked]
    cases events with
    | nil => rfl
    | cons event events =>
      cases event with
      | text content =>
        obtain ⟨c, content, rfl⟩ := List.exists_cons_of_ne_nil (legible.writable _ (.head _)).1
        exact if_neg fun mark => marked ⟨content, events, by rw [mark]⟩
      | _ =>
        apply dropOrderMark_of_ended
        rw [List.flatMap_cons]
        apply ended_write
        exact trivial

/-- What is written of nested events is read as these events, but for a mark of the byte order at the front. -/
theorem scan_write {events : List Event} (nested : Nested events) :
    scan (events.flatMap write) = ⟨unmarked events, none⟩ := by
  refine Reading.admitted_eq.mpr ?_
  rw [dropOrderMark_write nested.toLegible, split_write (legible_unmarked nested.toLegible)]
  refine ⟨rfl, rfl, ?_⟩
  rw [nest_unmarked]
  exact nested.nested

end Event
end EnvelopeWarp
