import EnvelopeWarp.Proofs.IndexedDrawings
import EnvelopeWarp.Proofs.RepeatedEdits

/-! What an envelope leaves alone. Only the tag of the object is written anew, so the control path keeps its path data,
and its tag is written as it would have been written before. An object that is its own control path is written anew all
the same. -/

namespace EnvelopeWarp

namespace Drawing

/-- The text that is written of a drawing, and the events in it: they were written one after the other, or else the text
is the source and they are read from it. -/
structure Written (drawing : Drawing) (edited : List Event) (text : String) : Prop where
  render : drawing.render = .ok text
  events : drawing.events = .ok edited
  joined : text = String.ofList (edited.flatMap Event.write) ∨
    text = drawing.source ∧ Event.scan drawing.source.toList = ⟨edited, none⟩

private theorem editFrom_nil (place : Nat) (events : List Event) : editFrom [] place events = .ok events := by
  induction events generalizing place with
  | nil => rfl
  | cons event events ih =>
    refine editFrom_cons_eq_ok.mpr ⟨event, events, ?_, ih _, rfl⟩
    unfold editEvent
    split
    · next unset => cases unset
    · rfl

/-- What is known of the source of a drawing, and what is written of the drawing. -/
structure Sourced (drawing : Drawing) (found edited : List Event) (text : String) : Prop where
  scanned : Event.scan drawing.source.toList = ⟨found, none⟩
  read : ∀ tag ∈ Event.tags found, ∃ marks, Marks.ofTag tag = .ok marks
  editing : editFrom drawing.edits 0 found = .ok edited
  written : drawing.Written edited text

theorem Reachable.indexed {drawing : Drawing} (reachable : Reachable drawing) : drawing.Indexed := by
  obtain ⟨parsed, calls, read, rfl⟩ := reachable.exists_calls
  exact indexed_afterCalls read calls

theorem Reachable.sourced {drawing : Drawing} (reachable : Reachable drawing) :
    ∃ found edited text, drawing.Sourced found edited text := by
  obtain ⟨_, _, parsed, _⟩ := reachable.exists_calls
  obtain ⟨found, index, readFrom⟩ := exists_readFrom parsed
  have scanned := readFrom.scanned
  have read : ∀ tag ∈ Event.tags found, ∃ marks, Marks.ofTag tag = .ok marks := readFrom.covers.read
  obtain ⟨edited, editing⟩ := editFrom_eq_ok drawing.edits read 0
  have events : drawing.events = .ok edited := (events_of_scan scanned).trans editing
  cases modified : drawing.isModified with
  | true =>
    exact ⟨found, edited, _, scanned, read, editing, render_of_modified modified events, events, .inl rfl⟩
  | false =>
    have kept := editing
    rw [edits_of_not_modified modified, editFrom_nil] at kept
    cases kept
    refine ⟨found, found, drawing.source, scanned, read, editing, ?_, events, .inr ⟨rfl, scanned⟩⟩
    unfold render
    rw [modified]
    rfl

/-- Where two drawings of one source have the same edit for a place, the same tag is written there. -/
theorem Sourced.tag_congr {drawing other : Drawing} {found edited again : List Event} {text copy : String}
    (sourced : drawing.Sourced found edited text) (second : other.Sourced found again copy) {place : Nat} {tag : Tag}
    (here : (Event.tags found)[place]? = some tag) (same : other.edits.lookup place = drawing.edits.lookup place) :
    ∃ written data marks, (Event.tags edited)[place]? = some written ∧ (Event.tags again)[place]? = some written ∧
      Marks.ofTag tag = .ok marks ∧ Marks.ofTag written = .ok (marks.withData data) := by
  obtain ⟨marks, read⟩ := sourced.read tag (List.mem_of_getElem? here)
  obtain ⟨written, data, editing, again_read⟩ := editTag_spec read drawing.edits place
  obtain ⟨first, first_found, first_edited⟩ := tags_editFrom sourced.editing here
  obtain ⟨last, last_found, last_edited⟩ := tags_editFrom second.editing here
  have edits : editTag other.edits place tag = editTag drawing.edits place tag := by
    unfold editTag
    rw [same]
  rw [Nat.zero_add, editing] at first_edited
  rw [Nat.zero_add, edits, editing] at last_edited
  cases first_edited
  cases last_edited
  exact ⟨written, data, marks, first_found, last_found, read, again_read⟩

theorem Redrawn.kept {drawing changed : Drawing} {object data : String} (redrawn : drawing.Redrawn object data changed)
    (inStep : drawing.InStep) {element : Element} (member : element ∈ drawing.elements) (other : element.id ≠ object) :
    element ∈ changed.elements ∧ changed.edits.lookup element.place = drawing.edits.lookup element.place := by
  obtain ⟨before, drawn, after, split, own, _, is, lookup⟩ := redrawn.elements
  have apart : element.place ≠ drawn.place := by
    intro same
    have inside : drawn ∈ drawing.elements := split ▸ List.mem_append_right _ (.head _)
    have equal := List.inj_on_of_nodup_map inStep.places member inside same
    exact other (equal ▸ own)
  refine ⟨?_, (lookup element.place).trans (if_neg apart)⟩
  rw [split] at member
  rw [is]
  rcases List.mem_append.mp member with front | rest
  · exact List.mem_append_left _ front
  · rcases List.mem_cons.mp rest with same | back
    · exact absurd (congrArg Element.place same) apart
    · exact List.mem_append_right _ (.tail _ back)

end Drawing

namespace Envelope

private theorem control_of_prepare {α : Type} [Scalar α] {drawing : Drawing} {object control : String}
    {others : List String}
    {fitting : Fitting α} (prepared : prepare drawing (object :: control :: others) = .ok fitting) :
    ∃ element, drawing.element? control = some element := by
  obtain ⟨_, _, rest⟩ := bind_eq_ok.mp prepared
  obtain ⟨data, found, _⟩ := bind_eq_ok.mp rest
  unfold pathData at found
  split at found
  · cases found
  · next element named => exact ⟨element, named⟩

private theorem control_of_fit {α : Type} [Scalar α] {measure : Measure Id α} {drawing : Drawing}
    {object control : String} {others : List String} {fitted : Fitted α}
    (found : Id.run (fit measure (object :: control :: others) drawing) = .ok fitted) :
    ∃ element, drawing.element? control = some element := by
  unfold fit at found
  split at found
  · cases found
  · next fitting prepared => exact control_of_prepare prepared

/-- An envelope leaves its control path alone, unless this is the object too: it is the same element as before, and what
is written of the drawing has the same tag in its place. -/
theorem run_spares_control {drawing changed : Drawing} (reachable : drawing.Reachable) {envelope : Envelope}
    {measure : Measure Id Float} {account : Report} {object control : String} {others : List String}
    (selected : envelope.selection = object :: control :: others) (apart : control ≠ object)
    (ran : Id.run (envelope.run measure drawing) = (.ok account, changed)) :
    ∃ element before text after again tag, drawing.element? control = some element ∧
      changed.element? control = some element ∧ drawing.Written before text ∧ changed.Written after again ∧
      (Event.tags before)[element.place]? = some tag ∧ (Event.tags after)[element.place]? = some tag ∧
      tag.Carries control := by
  rcases run_redraws reachable envelope measure with ⟨_, failed, _⟩ | ⟨fitted, drawn, found, first, done, redrawn⟩
  · rw [failed] at ran
    cases ran
  rw [done] at ran
  cases ran
  rw [selected] at first found
  obtain rfl : object = fitted.object := Option.some.inj first
  obtain ⟨element, named⟩ := control_of_fit found
  have indexed := reachable.indexed
  have inStep := reachable.inStep
  obtain ⟨member, own⟩ := inStep.element?_eq_some.mp named
  obtain ⟨kept, same_edit⟩ := redrawn.kept inStep member (own ▸ apart)
  have later : changed.Reachable := by
    have reached := Drawing.Reachable.run reachable envelope measure
    rwa [done] at reached
  obtain ⟨events, before, text, sourced⟩ := reachable.sourced
  obtain ⟨events_again, after, again, sourced_again⟩ := later.sourced
  have same_events : events_again = events := by
    have scanned := sourced_again.scanned
    rw [redrawn.source, sourced.scanned] at scanned
    exact (congrArg Reading.items scanned).symm
  subst same_events
  have tagged := (indexed.first control element.place).mp ⟨element, member, own, rfl⟩
  rw [sourced.scanned] at tagged
  obtain ⟨tag, here, carries⟩ := tagged.carries
  obtain ⟨written, data, marks, written_before, written_after, read, reread⟩ :=
    sourced.tag_congr sourced_again here same_edit
  refine ⟨element, before, text, after, again, written, named, ?_, sourced.written, sourced_again.written,
    written_before, written_after, ?_⟩
  · exact later.inStep.element?_eq_some.mpr ⟨kept, own⟩
  · exact (Drawing.Marks.id_eq_some_iff reread control).mp ((Drawing.Marks.id_eq_some_iff read control).mpr carries)

theorem run_spares_control_repeated_id :
    let source := "<svg><path id='a' d='M0 0 L1 1'/><path id='a'/><path title='\x22' d='M9 9' id='b'/><g id='b'/></svg>"
    let drawing : Drawing := ⟨source, [⟨"a", "path", 1, some "M0 0 L1 1"⟩, ⟨"b", "path", 3, some "M0 0 H2 V2 H0 Z"⟩],
      [("a", 0), ("b", 1)], none, none, [(3, "M0 0 H2 V2 H0 Z")]⟩
    let envelope : Envelope := ⟨["a", "b", "c"], some 1⟩
    drawing.Reachable ∧ ∃ changed before text after again tag,
      (Id.run (envelope.run Measure.geometry drawing)).2 = changed ∧
      changed.element? "b" = some ⟨"b", "path", 3, some "M0 0 H2 V2 H0 Z"⟩ ∧
      drawing.Written before text ∧ changed.Written after again ∧
      (Event.tags before)[3]? = some tag ∧ (Event.tags after)[3]? = some tag ∧ tag.Carries "b" := by
  intro source drawing envelope
  let unset : Drawing := ⟨source, [⟨"a", "path", 1, some "M0 0 L1 1"⟩, ⟨"b", "path", 3, some "M9 9"⟩],
    [("a", 0), ("b", 1)], none, none, []⟩
  have parsed : Drawing.parse source = .ok unset := by decide +kernel
  have set : unset.setPathData "b" "M0 0 H2 V2 H0 Z" = .ok drawing := by decide
  have reachable : drawing.Reachable := .set (.parsed parsed) set
  have modified : (Id.run (envelope.run Measure.geometry drawing)).1.toOption.isSome = true := by decide +kernel
  cases ran : Id.run (envelope.run Measure.geometry drawing) with
  | mk outcome changed =>
    rw [ran] at modified
    cases outcome with
    | error error => cases modified
    | ok account =>
      obtain ⟨element, before, text, after, again, tag, named, kept, written, written_again, here, there, carries⟩ :=
        run_spares_control reachable rfl (by decide) ran
      have control : drawing.element? "b" = some ⟨"b", "path", 3, some "M0 0 H2 V2 H0 Z"⟩ := by decide
      rw [control] at named
      cases named
      exact ⟨reachable, changed, before, text, after, again, tag, rfl, kept, written, written_again, here, there, carries⟩

/-- So the control path does not keep its path data in every run that succeeds, for it may be selected as the object. -/
theorem not_forall_run_spares_control : ¬∀ (drawing changed : Drawing) (envelope : Envelope) (measure : Measure Id Float)
    (account : Report) (object control : String) (others : List String), drawing.Reachable →
      envelope.selection = object :: control :: others →
      Id.run (envelope.run measure drawing) = (.ok account, changed) →
      (changed.element? control).bind Element.pathData = (drawing.element? control).bind Element.pathData := by
  intro spared
  let drawing : Drawing := ⟨"<svg><path id='a' d='M0 0H10V10H0Z'/></svg>",
    [⟨"a", "path", 1, some "M0 0H10V10H0Z"⟩], [("a", 0)], none, none, []⟩
  let envelope : Envelope := ⟨["a", "a"], none⟩
  have parsed : Drawing.parse drawing.source = .ok drawing := by decide +kernel
  have redrawn : (Id.run (envelope.run Measure.geometry drawing)).1.toOption.isSome = true ∧
      ((Id.run (envelope.run Measure.geometry drawing)).2.element? "a").bind Element.pathData =
        some "M 0,0 C 0,0 10,0 10,0 C 10,0 10,10 10,10 C 10,10 0,10 0,10 C 0,10 0,0 0,0 Z" := by decide +kernel
  cases ran : Id.run (envelope.run Measure.geometry drawing) with
  | mk outcome changed =>
    rw [ran] at redrawn
    cases outcome with
    | error error => cases redrawn.1
    | ok account =>
      have same := spared drawing changed envelope _ account "a" "a" [] (.parsed parsed) rfl ran
      rw [redrawn.2] at same
      revert same
      decide

end Envelope
end EnvelopeWarp
