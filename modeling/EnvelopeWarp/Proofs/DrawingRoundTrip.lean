import EnvelopeWarp.Proofs.EditedDrawings
import EnvelopeWarp.Proofs.LocatedElements

/-! Drawings are read back as they were written. Whatever calls replaced path data, the text that is written of a
drawing is a drawing with the same elements, and their path data is the data that was set last. -/

namespace EnvelopeWarp

def Element.shown (element : Element) : String × String × Option String :=
  (element.id, element.tag, element.pathData)

namespace Drawing

/-- The path data of an element is what the last call for its id has set, or else what it was before. -/
theorem shown_afterCalls {drawing : Drawing} (inStep : drawing.InStep) (calls : List (String × String)) :
    (drawing.afterCalls calls).elements.map Element.shown = drawing.elements.map fun element =>
      (element.id, element.tag, (calls.reverse.lookup element.id).or element.pathData) := by
  rw [elements_afterCalls inStep, List.map_map]
  rfl

/-- The elements of an index have places of their own, and their ids lead to them. -/
structure Index.Sound (index : Index) : Prop where
  below : ∀ element ∈ index.elements, element.place < index.tags
  distinct : (index.elements.map Element.place).Nodup
  located : Locates index.positions (index.elements.map Element.id)

/-- A tag adds no element or one, which has a new id and stands at its place. -/
theorem Index.list_cases (index : Index) (tag : Tag) (marks : Marks) : index.list tag marks = index ∨
    ∃ element, element.place = index.tags ∧ index.positions.lookup element.id = none ∧
      index.list tag marks = { index with
        elements := index.elements ++ [element]
        positions := index.positions ++ [(element.id, index.elements.length)] } := by
  unfold list
  split
  · exact .inl rfl
  · split
    · exact .inl rfl
    · next unknown => exact .inr ⟨_, rfl, Option.not_isSome_iff_eq_none.mp unknown, rfl⟩

theorem Index.sound_addTag {index next : Index} {tag : Tag} (sound : index.Sound)
    (added : index.addTag tag = .ok next) : next.Sound := by
  obtain ⟨marks, size, _, _, rfl⟩ := addTag_eq_ok.mp added
  have below : ∀ element ∈ index.elements, element.place < index.tags + 1 := fun element member =>
    Nat.lt_succ_of_lt (sound.below element member)
  rcases index.list_cases tag marks with same | ⟨element, place, fresh, longer⟩
  · rw [same]
    exact ⟨below, sound.distinct, sound.located⟩
  · rw [longer]
    refine ⟨fun other member => ?_, ?_, ?_⟩
    · rcases List.mem_append.mp member with old | own
      · exact below other old
      · rw [List.mem_singleton.mp own, place]
        exact Nat.lt_succ_self _
    · rw [List.map_append]
      refine List.nodup_append.mpr ⟨sound.distinct, List.pairwise_singleton _ _, fun earlier old own member same => ?_⟩
      obtain ⟨other, inside, rfl⟩ := List.mem_map.mp old
      rw [List.mem_singleton.mp member, place] at same
      exact absurd same (Nat.ne_of_lt (sound.below other inside))
    · have located := sound.located.concat fresh
      rw [List.length_map] at located
      rw [List.map_append]
      exact located

theorem Index.sound_add {index next : Index} {event : Event} (sound : index.Sound)
    (added : index.add event = .ok next) : next.Sound := by
  cases starts : event.tag? with
  | some tag =>
    rw [add_of_tag starts] at added
    exact sound_addTag sound added
  | none =>
    rw [add_of_no_tag starts] at added
    cases added
    exact sound

theorem Index.sound_foldlM {events : List Event} {index last : Index} (sound : index.Sound)
    (run : events.foldlM add index = .ok last) : last.Sound := by
  induction events generalizing index with
  | nil =>
    cases run
    exact sound
  | cons event events ih =>
    obtain ⟨next, added, rest⟩ := bind_eq_ok.mp run
    exact ih (sound_add sound added) rest

theorem Index.sound_empty : Sound empty :=
  ⟨fun _ member => (nomatch member), .nil, locates_nil⟩

theorem parse_eq_ok {source : String} {drawing : Drawing} : parse source = .ok drawing ↔
    ∃ events index size, Event.scan source.toList = ⟨events, none⟩ ∧
      events.foldlM Index.add .empty = .ok index ∧ index.root = some size ∧
        drawing = ⟨source, index.elements, index.positions, size.width, size.height, []⟩ := by
  constructor
  · intro parsed
    obtain ⟨index, indexed, rest⟩ := bind_eq_ok.mp parsed
    obtain ⟨events, scanned, run⟩ := Reading.fold_eq_ok.mp indexed
    split at rest
    · cases rest
    · next size root =>
      cases rest
      exact ⟨events, index, size, scanned, run, root, rfl⟩
  · rintro ⟨events, index, size, scanned, run, root, rfl⟩
    refine bind_eq_ok.mpr ⟨index, Reading.fold_eq_ok.mpr ⟨events, scanned, run⟩, ?_⟩
    rw [root]
    rfl

theorem Index.Sound.inStep {index : Index} (sound : index.Sound) (source : String) (width height : Option String) :
    InStep ⟨source, index.elements, index.positions, width, height, []⟩ :=
  ⟨sound.located, sound.distinct, .nil, nofun⟩

/-- A drawing that was read is in step, and nothing in it is to be written anew. -/
theorem inStep_parsed {source : String} {drawing : Drawing} (parsed : parse source = .ok drawing) :
    drawing.InStep ∧ drawing.rewrites = [] := by
  obtain ⟨_, _, _, _, run, _, rfl⟩ := parse_eq_ok.mp parsed
  exact ⟨(Index.sound_foldlM Index.sound_empty run).inStep _ _ _, rfl⟩

theorem foldlM_add_eq (events : List Event) (index : Index) :
    events.foldlM Index.add index = (Event.tags events).foldlM Index.addTag index := by
  induction events generalizing index with
  | nil => rfl
  | cons event events ih =>
    rw [List.foldlM_cons, Event.tags, List.filterMap_cons]
    cases starts : event.tag? with
    | none =>
      rw [Index.add_of_no_tag starts]
      exact ih index
    | some tag =>
      rw [Index.add_of_tag starts, List.foldlM_cons]
      exact congrArg _ (funext ih)

private theorem foldlM_add_unmarked (events : List Event) (index : Index) :
    (Event.unmarked events).foldlM Index.add index = events.foldlM Index.add index := by
  rw [foldlM_add_eq, Event.tags_unmarked, ← foldlM_add_eq]

theorem lookup_edits (drawing : Drawing) (place : Nat) :
    drawing.edits.lookup place = (drawing.rewrites.lookup place).map String.toList := by
  unfold edits
  induction drawing.rewrites with
  | nil => rfl
  | cons entry rewrites ih =>
    rw [List.map_cons, List.lookup_cons, List.lookup_cons]
    cases place == entry.1 with
    | true => rfl
    | false => exact ih

/-- After calls, the path data of each element is what the tag in its place is to be written with, if there is anything,
and else what it was. -/
theorem elements_eq_revised {drawing : Drawing} (inStep : drawing.InStep) (unwritten : drawing.rewrites = [])
    (calls : List (String × String)) :
    (drawing.afterCalls calls).elements = drawing.elements.map (revised (drawing.afterCalls calls).edits) := by
  rw [elements_afterCalls inStep]
  apply List.map_congr_left
  intro element member
  have found := lookup_edits (drawing.afterCalls calls) element.place
  rw [rewrites_afterCalls inStep calls member, unwritten, List.lookup_nil, Option.or_none] at found
  unfold revised
  rw [dataAt_of_lookup found]
  cases calls.reverse.lookup element.id with
  | none => rfl
  | some data => simp

theorem events_of_scan {drawing : Drawing} {found : List Event}
    (scanned : Event.scan drawing.source.toList = ⟨found, none⟩) : drawing.events = editFrom drawing.edits 0 found := by
  unfold Drawing.events
  rw [scanned]
  rfl

theorem edits_of_not_modified {drawing : Drawing} (untouched : drawing.isModified = false) : drawing.edits = [] := by
  unfold edits
  rw [List.isEmpty_iff.mp ((Bool.not_eq_false' _).mp untouched), List.map_nil]

theorem render_of_modified {drawing : Drawing} (modified : drawing.isModified = true) {edited : List Event}
    (events : drawing.events = .ok edited) : drawing.render = .ok (String.ofList (edited.flatMap Event.write)) := by
  unfold render
  rw [if_pos modified, events]
  rfl

/-- The events of a drawing with its edits are those of a text in which the edits are written down. -/
theorem events_spec {drawing : Drawing} {found : List Event} {index : Index}
    (scanned : Event.scan drawing.source.toList = ⟨found, none⟩) (plain : PlainFrom drawing.edits 0 found)
    (run : found.foldlM Index.add .empty = .ok index) : ∃ edited, drawing.events = .ok edited ∧
      Event.scan (edited.flatMap Event.write) = ⟨Event.unmarked edited, none⟩ ∧
        (Event.unmarked edited).foldlM Index.add .empty = .ok (index.revised drawing.edits) := by
  have nested := Event.nested_of_scan scanned
  obtain ⟨edited, editing, replaces, edited_run⟩ := editFrom_spec drawing.edits nested.writable plain run
  refine ⟨edited, (events_of_scan scanned).trans editing, ?_, ?_⟩
  · exact Event.scan_write (Event.nested_of_replaces replaces nested)
  · rw [foldlM_add_unmarked]
    exact edited_run

/-- The drawing that is read from the text of another one. -/
def reloaded (drawing : Drawing) (text : String) : Drawing :=
  { drawing with source := text, rewrites := [] }

theorem Agrees.reloaded_eq {drawing changed : Drawing} (agrees : Agrees drawing changed) (text : String) :
    changed.reloaded text = ⟨text, changed.elements, drawing.positions, drawing.width, drawing.height, []⟩ := by
  rw [← agrees.positions, ← agrees.width, ← agrees.height]
  rfl

/-- A drawing is written as a text, and read from this text it has the same elements, and nothing to be written anew. -/
theorem parse_render_reloaded {source : String} {drawing : Drawing} (parsed : parse source = .ok drawing)
    (calls : List (String × String))
    (plain : PlainFrom (drawing.afterCalls calls).edits 0 (Event.scan source.toList).items) :
    ∃ text, (drawing.afterCalls calls).render = .ok text ∧ parse text = .ok ((drawing.afterCalls calls).reloaded text) := by
  obtain ⟨inStep, unwritten⟩ := inStep_parsed parsed
  have agrees := agrees_afterCalls drawing calls
  have revised := elements_eq_revised inStep unwritten calls
  obtain ⟨found, index, size, scanned, run, root, rfl⟩ := parse_eq_ok.mp parsed
  generalize afterCalls _ calls = changed at plain agrees revised ⊢
  have same_source : changed.source = source := agrees.source
  simp only [agrees.reloaded_eq]
  unfold render
  cases modified : changed.isModified with
  | false =>
    refine ⟨source, by rw [same_source]; rfl, ?_⟩
    rw [revised, edits_of_not_modified modified]
    refine parsed.trans (congrArg Except.ok ?_)
    exact congrArg (Drawing.mk source · index.positions size.width size.height []) (List.map_id _).symm
  | true =>
    rw [scanned] at plain
    rw [← same_source] at scanned
    obtain ⟨edited, editing, reread, again_run⟩ := events_spec scanned plain run
    refine ⟨String.ofList (edited.flatMap Event.write), bind_eq_ok.mpr ⟨edited, editing, rfl⟩, parse_eq_ok.mpr ?_⟩
    refine ⟨_, _, size, ?_, again_run, root, ?_⟩
    · rw [String.toList_ofList]
      exact reread
    · rw [revised]
      rfl

/-- Whatever calls replaced path data in a drawing, it is written as a text that is read as a drawing with the same
elements in the same order, each with its id, its tag and its path data, and with the same size. The path data is what
the calls have set last. -/
theorem parse_render {source : String} {drawing : Drawing} (parsed : parse source = .ok drawing)
    (plain : Plain (Event.scan source.toList).items) (calls : List (String × String)) :
    ∃ text again, (drawing.afterCalls calls).render = .ok text ∧ parse text = .ok again ∧
      again.elements.map Element.shown = (drawing.afterCalls calls).elements.map Element.shown ∧
      (again.elements.map Element.shown = drawing.elements.map fun element =>
        (element.id, element.tag, (calls.reverse.lookup element.id).or element.pathData)) ∧
      again.width = drawing.width ∧ again.height = drawing.height := by
  have agrees := agrees_afterCalls drawing calls
  obtain ⟨text, rendered, reread⟩ := parse_render_reloaded parsed calls (plain.plainFrom _ 0)
  exact ⟨text, _, rendered, reread, rfl, shown_afterCalls (inStep_parsed parsed).1 calls, agrees.width, agrees.height⟩

theorem parse_render_mixed_quotes :
    let source := "<!DOCTYPE  svg><svg width='10' height=\x2220\x22><!-- <path id='c'/> -->" ++
      "<path title='>\x22' id='a'/><g id='a'/><path d='M0 0' id='b'></path ><![CDATA[<path>]]></svg>"
    let drawing : Drawing :=
      ⟨source, [⟨"a", "path", 1, none⟩, ⟨"b", "path", 3, some "M0 0"⟩], [("a", 0), ("b", 1)], some "10", some "20", []⟩
    let calls := [("a", "<&>\x22'\n"), ("c", "M9 9"), ("b", "M1 1")]
    parse source = .ok drawing ∧ ∃ text again, (drawing.afterCalls calls).render = .ok text ∧ parse text = .ok again ∧
      again.elements.map Element.shown = [("a", "path", some "<&>\x22'\n"), ("b", "path", some "M1 1")] ∧
      again.width = some "10" ∧ again.height = some "20" := by
  intro source drawing calls
  have parsed : parse source = .ok drawing := by decide +kernel
  have plain : Plain (Event.scan source.toList).items := by
    unfold Plain
    decide +kernel
  obtain ⟨text, again, rendered, reread, _, elements, width, height⟩ := parse_render parsed plain calls
  exact ⟨parsed, text, again, rendered, reread, elements, width, height⟩

end Drawing
end EnvelopeWarp
