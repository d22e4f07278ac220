import EnvelopeWarp.Proofs.EnvelopeRuns

/-! What stays in step in a drawing. Its elements are listed in the order of the tags that are the first to carry
their ids, each id leads to its element and nothing else leads anywhere, and whatever is to be written for a tag is the
path data of its element. Whatever is done to a drawing comes down to calls that replace path data, and of these only
the last for each id can be told from what is seen of the drawing. -/

namespace EnvelopeWarp
namespace Drawing

/-- Whatever may change a drawing. -/
inductive Operation where
  | set (id data : String)
  | apply (envelope : Envelope) (measure : Measure Id Float)

namespace Operation

/-- The drawing after an operation, which changes nothing when it is refused. -/
def perform (drawing : Drawing) : Operation → Drawing
  | set id data => drawing.afterCall (id, data)
  | apply envelope measure => (Id.run (envelope.run measure drawing)).2

def Succeeds (drawing : Drawing) : Operation → Prop
  | set id data => ∃ next, drawing.setPathData id data = .ok next
  | apply envelope measure => ∃ report, (Id.run (envelope.run measure drawing)).1 = .ok report

end Operation

def after (drawing : Drawing) (operations : List Operation) : Drawing :=
  operations.foldl Operation.perform drawing

/-- One of the operations, made one after the other, is not refused. -/
def Succeeds (drawing : Drawing) : List Operation → Prop
  | [] => False
  | operation :: later => operation.Succeeds drawing ∨ (operation.perform drawing).Succeeds later

theorem accepts_append {drawing : Drawing} (inStep : drawing.InStep) {first second : List (String × String)} :
    drawing.Accepts (first ++ second) ↔ drawing.Accepts first ∨ (drawing.afterCalls first).Accepts second := by
  rw [accepts_iff inStep, accepts_iff inStep, accepts_iff (inStep.afterCalls first), (agrees_afterCalls drawing first).ids]
  simp only [List.mem_append, or_and_right, exists_or]

private theorem accepts_single {drawing : Drawing} {call : String × String} :
    drawing.Accepts [call] ↔ ∃ next, drawing.setPathData call.1 call.2 = .ok next := by
  constructor
  · rintro ⟨earlier, other, later, next, same, set⟩
    obtain ⟨rfl, rest⟩ | ⟨front, rfl, rest⟩ := List.cons_eq_append_iff.mp same
    · cases rest
      exact ⟨next, set⟩
    · cases front <;> cases rest
  · rintro ⟨next, set⟩
    exact ⟨[], call, [], next, rfl, set⟩

private theorem not_accepts_nil (drawing : Drawing) : ¬drawing.Accepts [] := by
  rintro ⟨earlier, call, later, next, same, _⟩
  cases earlier <;> cases same

/-- An operation makes one call that succeeds if the operation does, or it makes none. -/
theorem perform_eq_afterCalls (drawing : Drawing) (operation : Operation) : ∃ calls,
    operation.perform drawing = drawing.afterCalls calls ∧ (operation.Succeeds drawing ↔ drawing.Accepts calls) := by
  cases operation with
  | set id data => exact ⟨[(id, data)], rfl, (@accepts_single _ (id, data)).symm⟩
  | apply envelope measure =>
    have installed : Id.run (envelope.run measure drawing) =
        envelope.install drawing (Id.run (Envelope.fit measure envelope.selection drawing)) := rfl
    unfold Operation.perform Operation.Succeeds
    simp only [installed]
    cases Id.run (Envelope.fit measure envelope.selection drawing) with
    | error error =>
      refine ⟨[], rfl, ?_, fun accepted => (not_accepts_nil _ accepted).elim⟩
      rintro ⟨_, failed⟩
      cases failed
    | ok fitted =>
      refine ⟨[(fitted.object, fitted.path.data envelope.precision)], ?_, Iff.trans ?_ accepts_single.symm⟩
      · unfold Envelope.install afterCalls
        simp only [List.foldl_cons, List.foldl_nil, afterCall]
        cases drawing.setPathData fitted.object (fitted.path.data envelope.precision) <;> rfl
      · unfold Envelope.install
        dsimp only
        cases drawing.setPathData fitted.object (fitted.path.data envelope.precision) with
        | error error =>
          constructor
          all_goals
            rintro ⟨_, failed⟩
            cases failed
        | ok changed => exact ⟨fun _ => ⟨changed, rfl⟩, fun _ => ⟨_, rfl⟩⟩

private theorem after_eq_afterCalls {drawing : Drawing} (inStep : drawing.InStep) (operations : List Operation) :
    ∃ calls, drawing.after operations = drawing.afterCalls calls ∧
      (drawing.Succeeds operations ↔ drawing.Accepts calls) := by
  induction operations generalizing drawing with
  | nil => exact ⟨[], rfl, False.elim, fun accepted => not_accepts_nil _ accepted⟩
  | cons operation operations ih =>
    obtain ⟨first, performed, succeeds⟩ := perform_eq_afterCalls drawing operation
    obtain ⟨rest, reached, accepted⟩ := ih (performed ▸ inStep.afterCalls first)
    refine ⟨first ++ rest, ?_, ?_⟩
    · rw [afterCalls_append, ← performed]
      exact reached
    · rw [accepts_append inStep, ← performed, ← succeeds, ← accepted]
      rfl

private theorem ids_after {drawing : Drawing} (inStep : drawing.InStep) (operations : List Operation) :
    (drawing.after operations).elements.map Element.id = drawing.elements.map Element.id := by
  obtain ⟨calls, reached, _⟩ := after_eq_afterCalls inStep operations
  rw [reached, (agrees_afterCalls drawing calls).ids]

/-- Whatever happened to a drawing since it was read, calls would have done the same to it. -/
theorem Reachable.exists_calls {drawing : Drawing} (reachable : Reachable drawing) :
    ∃ parsed calls, parse drawing.source = .ok parsed ∧ drawing = parsed.afterCalls calls := by
  induction reachable with
  | @parsed source drawing parsed =>
    obtain ⟨_, _, read⟩ := exists_readFrom parsed
    exact ⟨drawing, [], read.source.symm ▸ parsed, rfl⟩
  | @set drawing changed id data _ set ih =>
    obtain ⟨parsed, calls, read, rfl⟩ := ih
    have call : (parsed.afterCalls calls).afterCall (id, data) = changed := by
      unfold afterCall
      rw [set]
    refine ⟨parsed, calls ++ [(id, data)], ?_, ?_⟩
    · rw [← call, (agrees_afterCall _ _).source]
      exact read
    · rw [afterCalls_append, ← call]
      rfl
  | @run drawing _ envelope measure ih =>
    obtain ⟨parsed, calls, read, rfl⟩ := ih
    obtain ⟨more, performed, _⟩ := perform_eq_afterCalls (parsed.afterCalls calls) (.apply envelope measure)
    have changed : (Id.run (envelope.run measure (parsed.afterCalls calls))).2 = parsed.afterCalls (calls ++ more) := by
      rw [afterCalls_append]
      exact performed
    refine ⟨parsed, calls ++ more, ?_, changed⟩
    rw [changed, afterCalls_append, (agrees_afterCalls _ _).source]
    exact read

/-- The elements of an index follow each other like their tags. -/
theorem Index.increasing_addTag {index next : Index} {tag : Tag} (sound : index.Sound)
    (increasing : (index.elements.map Element.place).Pairwise (· < ·)) (added : index.addTag tag = .ok next) :
    (next.elements.map Element.place).Pairwise (· < ·) := by
  obtain ⟨marks, size, _, _, rfl⟩ := addTag_eq_ok.mp added
  rcases index.list_cases tag marks with same | ⟨element, place, _, longer⟩
  · rw [same]
    exact increasing
  · rw [longer]
    change ((index.elements ++ [element]).map Element.place).Pairwise (· < ·)
    rw [List.map_append]
    refine List.pairwise_append.mpr ⟨increasing, List.pairwise_singleton _ _, fun earlier old own member => ?_⟩
    obtain ⟨other, inside, rfl⟩ := List.mem_map.mp old
    rw [List.mem_singleton.mp member, place]
    exact sound.below other inside

theorem Index.increasing_foldlM {tags : List Tag} {index last : Index} (sound : index.Sound)
    (increasing : (index.elements.map Element.place).Pairwise (· < ·)) (run : tags.foldlM addTag index = .ok last) :
    (last.elements.map Element.place).Pairwise (· < ·) := by
  induction tags generalizing index with
  | nil =>
    cases run
    exact increasing
  | cons tag tags ih =>
    obtain ⟨next, added, rest⟩ := bind_eq_ok.mp run
    exact ih (sound_addTag sound added) (increasing_addTag sound increasing added) rest

/-- The parts of a drawing fit together, and fit its source. -/
structure Indexed (drawing : Drawing) : Prop where
  markup : (Event.scan drawing.source.toList).fault = none
  ids : (drawing.elements.map Element.id).Nodup
  /-- An id leads to the position of its element, and what is no id of an element leads nowhere. -/
  located : ∀ id position, drawing.positions.lookup id = some position ↔
    ∃ element, drawing.elements[position]? = some element ∧ element.id = id
  found : ∀ id element, drawing.element? id = some element ↔ element ∈ drawing.elements ∧ element.id = id
  first : ∀ id place, (∃ element ∈ drawing.elements, element.id = id ∧ element.place = place) ↔
    First (Event.tags (Event.scan drawing.source.toList).items) id place
  increasing : (drawing.elements.map Element.place).Pairwise (· < ·)
  /-- No tag is to be written with two texts. -/
  apart : (drawing.rewrites.map Prod.fst).Nodup
  pending : ∀ entry ∈ drawing.rewrites, ∃ element ∈ drawing.elements, element.place = entry.1 ∧
    element.pathData = some entry.2

theorem indexed_afterCalls {source : String} {drawing : Drawing} (parsed : parse source = .ok drawing)
    (calls : List (String × String)) : (drawing.afterCalls calls).Indexed := by
  obtain ⟨found, index, read⟩ := exists_readFrom parsed
  have run := read.run
  rw [foldlM_add_eq] at run
  have increasing := Index.increasing_foldlM Index.sound_empty .nil run
  have agrees := agrees_afterCalls drawing calls
  have inStep := read.inStep.afterCalls calls
  have scanned : Event.scan (drawing.afterCalls calls).source.toList = ⟨found, none⟩ := by
    rw [agrees.source, read.source, read.scanned]
  have elements := elements_afterCalls read.inStep calls
  refine ⟨by rw [scanned], inStep.located.nodup, fun id position => ?_, fun id element => inStep.element?_eq_some,
    fun id place => ?_, ?_, inStep.apart, inStep.pending⟩
  · rw [inStep.located, List.getElem?_map, Option.map_eq_some_iff]
  · rw [scanned, ← read.covers.listed, ← read.elements, elements]
    simp only [List.mem_map, exists_exists_and_eq_and]
  · rw [agrees.places, read.elements]
    exact increasing

/-- Two drawings that cannot be told apart by what is seen of them, with the same to be written at every place. -/
structure LooksLike (first second : Drawing) : Prop where
  elements : first.elements = second.elements
  rewrites : ∀ place, first.rewrites.lookup place = second.rewrites.lookup place
  modified : first.isModified = second.isModified
  render : first.render = second.render

private theorem editFrom_congr {first second : List (Nat × List Char)}
    (same : ∀ place, first.lookup place = second.lookup place)
    (place : Nat) (events : List Event) : editFrom first place events = editFrom second place events := by
  induction events generalizing place with
  | nil => rfl
  | cons event events ih =>
    have here : editEvent first place event = editEvent second place event := by
      unfold editEvent
      rw [same]
    unfold editFrom
    rw [here, ih]

section
variable {drawing : Drawing} {first second : List (String × String)}

/-- Calls that are the same in the end leave the same to be written at every place. -/
theorem rewrites_congr (inStep : drawing.InStep)
    (same : ∀ id ∈ drawing.elements.map Element.id, first.reverse.lookup id = second.reverse.lookup id) (place : Nat) :
    (drawing.afterCalls first).rewrites.lookup place = (drawing.afterCalls second).rewrites.lookup place := by
  by_cases listed : place ∈ drawing.elements.map Element.place
  · obtain ⟨element, member, rfl⟩ := List.mem_map.mp listed
    rw [rewrites_afterCalls inStep first member, rewrites_afterCalls inStep second member,
      same element.id (List.mem_map_of_mem member)]
  · rw [lookup_afterCalls_eq_none inStep first listed, lookup_afterCalls_eq_none inStep second listed]

private theorem accepts_iff_lookup (inStep : drawing.InStep) : drawing.Accepts first ↔
    ∃ id ∈ drawing.elements.map Element.id, (first.reverse.lookup id).isSome = true := by
  rw [accepts_iff inStep]
  simp only [List.lookup_isSome_iff, List.mem_reverse, beq_iff_eq]
  exact ⟨fun ⟨call, called, listed⟩ => ⟨call.1, listed, call, called, rfl⟩,
    fun ⟨id, listed, call, called, same⟩ => ⟨call, called, same ▸ listed⟩⟩

/-- Only the last call for each id of an element counts. -/
theorem afterCalls_looksLike (inStep : drawing.InStep)
    (same : ∀ id ∈ drawing.elements.map Element.id, first.reverse.lookup id = second.reverse.lookup id) :
    (drawing.afterCalls first).LooksLike (drawing.afterCalls second) := by
  have modified : (drawing.afterCalls first).isModified = (drawing.afterCalls second).isModified := by
    rw [Bool.eq_iff_iff, isModified_afterCalls inStep, isModified_afterCalls inStep, accepts_iff_lookup inStep,
      accepts_iff_lookup inStep]
    exact or_congr_right (exists_congr fun id => and_congr_right fun listed => by rw [same id listed])
  have source := (agrees_afterCalls drawing first).source.trans (agrees_afterCalls drawing second).source.symm
  have rewrites := rewrites_congr inStep same
  refine ⟨?_, rewrites, modified, ?_⟩
  · rw [elements_afterCalls inStep, elements_afterCalls inStep]
    apply List.map_congr_left
    intro element member
    rw [same element.id (List.mem_map_of_mem member)]
  · have events : (drawing.afterCalls first).events = (drawing.afterCalls second).events := by
      unfold events
      rw [source]
      split
      · exact editFrom_congr (fun place => by rw [lookup_edits, lookup_edits, rewrites place]) _ _
      · rfl
    unfold render
    rw [modified, events, source]

end

/-- Whatever is done to a drawing that was read, its parts stay in step with each other and with its source. It is
modified when some operation was not refused; a call for an id that no element has changes nothing; and of calls only
the last for each id can be told from what is seen of the drawing, in whatever order they are made. -/
theorem after_indexed {source : String} {drawing : Drawing} (parsed : parse source = .ok drawing)
    (operations : List Operation) :
    (drawing.after operations).source = source ∧ (drawing.after operations).Indexed ∧
    ((drawing.after operations).isModified = true ↔ drawing.Succeeds operations) ∧
    (∀ id data, id ∉ (drawing.after operations).elements.map Element.id →
      (drawing.after operations).setPathData id data = .error (.unknownElement id) ∧
        (drawing.after operations).afterCall (id, data) = drawing.after operations) ∧
    ∀ first second : List (String × String),
      (∀ id ∈ (drawing.after operations).elements.map Element.id, first.reverse.lookup id = second.reverse.lookup id) →
        ((drawing.after operations).afterCalls first).LooksLike ((drawing.after operations).afterCalls second) := by
  obtain ⟨_, _, read⟩ := exists_readFrom parsed
  obtain ⟨calls, reached, succeeds⟩ := after_eq_afterCalls read.inStep operations
  have inStep : (drawing.after operations).InStep := reached ▸ read.inStep.afterCalls calls
  refine ⟨?_, reached ▸ indexed_afterCalls parsed calls, ?_, fun id data unknown => ?_,
    fun _ _ => afterCalls_looksLike inStep⟩
  · rw [reached, (agrees_afterCalls drawing calls).source, read.source]
  · rw [reached, succeeds, read.isModified_iff]
  · exact ⟨setPathData_of_unknown inStep unknown data, afterCall_of_unknown inStep unknown⟩

theorem after_indexed_repeated_id :
    let source := "<svg><g d='M5 5'/><path id='a' d='M0 0L1 1'/><path id='a'/><path id='b' d='M0 0H2V2H0Z'/></svg>"
    let drawing : Drawing :=
      ⟨source, [⟨"a", "path", 2, some "M0 0L1 1"⟩, ⟨"b", "path", 4, some "M0 0H2V2H0Z"⟩], [("a", 0), ("b", 1)],
        none, none, []⟩
    let operations : List Operation := [.set "c" "M9 9", .apply ⟨["a", "b"], some 1⟩ Measure.geometry, .set "b" "M3 3"]
    let later := drawing.after operations
    parse source = .ok drawing ∧ later.Indexed ∧ drawing.Succeeds operations ∧
      later.rewrites = [(4, "M3 3"), (2, "M 0,0 C 0,0 2,2 2,2")] ∧
      later.setPathData "c" "M9 9" = .error (.unknownElement "c") ∧
      (later.afterCalls [("a", "M1 1"), ("b", "M2 2")]).LooksLike
        (later.afterCalls [("b", "M2 2"), ("c", "M9 9"), ("a", "M8 8"), ("a", "M1 1")]) := by
  intro source drawing operations later
  have parsed : parse source = .ok drawing := by decide +kernel
  have inStep := (inStep_parsed parsed).1
  obtain ⟨_, indexed, modified, unknown, order⟩ := after_indexed parsed operations
  have ids : later.elements.map Element.id = ["a", "b"] := ids_after inStep operations
  have rewrites : later.rewrites = [(4, "M3 3"), (2, "M 0,0 C 0,0 2,2 2,2")] := by decide +kernel
  have changed : later.isModified = true := by
    rw [isModified, rewrites]
    rfl
  refine ⟨parsed, indexed, modified.mp changed, rewrites, (unknown "c" "M9 9" ?_).1, order _ _ ?_⟩
  · rw [ids]
    decide
  · rw [ids]
    decide

end Drawing
end EnvelopeWarp
