import EnvelopeWarp.Envelope.Basic
import EnvelopeWarp.Proofs.RenderedEvents

/-! What an envelope does to a drawing. In every drawing that can be reached, each id belongs to one element and each
element to a place of its own. So an envelope that has found its object can replace the path data of that element, and
of no other; whatever stops it before leaves the drawing as it was. -/

namespace EnvelopeWarp

namespace Drawing

/-- Another drawing in which one element has other path data, to be written in its place. -/
structure Redrawn (drawing : Drawing) (id data : String) (changed : Drawing) : Prop where
  source : changed.source = drawing.source
  positions : changed.positions = drawing.positions
  width : changed.width = drawing.width
  height : changed.height = drawing.height
  shown : ∃ element, changed.element? id = some element ∧ element.pathData = some data
  elements : ∃ before element after, drawing.elements = before ++ element :: after ∧ element.id = id ∧
    (∀ other ∈ before ++ after, other.id ≠ id) ∧
    changed.elements = before ++ { element with pathData := some data } :: after ∧
    ∀ place, changed.edits.lookup place =
      if place = element.place then some data.toList else drawing.edits.lookup place

theorem redrawn_setPathData {drawing changed : Drawing} {id data : String} (inStep : drawing.InStep)
    (set : drawing.setPathData id data = .ok changed) : Redrawn drawing id data changed := by
  have later := inStep.setPathData set
  obtain ⟨before, element, after, split, own, rfl⟩ := (setPathData_eq_ok inStep).mp set
  have ids := inStep.located.nodup
  rw [split] at ids
  have listed : { element with pathData := some data } ∈ (drawing.replaced before element after data).elements :=
    List.mem_append_right _ (.head _)
  refine ⟨rfl, rfl, rfl, rfl, ⟨_, later.element?_eq_some.mpr ⟨listed, own⟩, rfl⟩, before, element, after, split, own,
    own ▸ ne_of_nodup_middle ids, rfl, fun place => ?_⟩
  rw [lookup_edits, lookup_edits]
  change ((rewrite drawing.rewrites element.place data).lookup place).map String.toList = _
  rw [lookup_rewrite]
  split <;> rfl

/-- A drawing that was read, and then changed by calls and by envelopes. -/
inductive Reachable : Drawing → Prop
  | parsed {source : String} {drawing : Drawing} (parsed : parse source = .ok drawing) : Reachable drawing
  | set {drawing changed : Drawing} {id data : String} (before : Reachable drawing)
      (set : drawing.setPathData id data = .ok changed) : Reachable changed
  | run {drawing : Drawing} (before : Reachable drawing) (envelope : Envelope) (measure : Measure Id Float) :
      Reachable (Id.run (envelope.run measure drawing)).2

end Drawing

namespace Envelope
variable {α β γ : Type}

/-- Whatever stopped a computation, it was not that path data could not be replaced. -/
def Harmless (outcome : Except (EnvelopeError α) β) : Prop :=
  ∀ cause, outcome ≠ .error (.drawing cause)

theorem Harmless.bind {first : Except (EnvelopeError α) β} {next : β → Except (EnvelopeError α) γ}
    (harmless : Harmless first) (rest : ∀ value, Harmless (next value)) : Harmless (first >>= next) := by
  cases first with
  | ok value => exact rest value
  | error error => exact fun cause same => harmless cause (congrArg Except.error (Except.error.inj same))

private theorem harmless_pathData (drawing : Drawing) (id : String) :
    Harmless (pathData drawing id : Except (EnvelopeError α) String) := by
  intro cause
  unfold pathData
  split
  · exact nofun
  · split
    · split <;> exact nofun
    · exact nofun

private theorem harmless_corners (id : String) (path : Path α) : Harmless (corners id path) := by
  intro cause
  unfold corners
  split <;> exact nofun

variable [Scalar α]

private theorem harmless_parsePath (id data : String) :
    Harmless (parsePath id data : Except (EnvelopeError α) (Path α)) := by
  intro cause
  unfold parsePath
  split <;> exact nofun

private theorem harmless_prepare (drawing : Drawing) (selection : List String) :
    Harmless (prepare drawing selection : Except (EnvelopeError α) (Fitting α)) := by
  unfold prepare
  split
  · next object control _ =>
    refine (harmless_pathData drawing object).bind fun objectData => ?_
    refine (harmless_pathData drawing control).bind fun controlData => ?_
    refine (harmless_parsePath control controlData).bind fun path => ?_
    refine (harmless_corners control path).bind fun target => ?_
    exact (harmless_parsePath object objectData).bind fun path => nofun
  · exact nofun

private theorem harmless_sourceBox (drawing : Drawing) (measured : Measured α) :
    Harmless (sourceBox drawing measured) := by
  intro cause
  unfold sourceBox
  split
  · exact nofun
  · split
    · exact nofun
    · split <;> exact nofun

private theorem harmless_warpPath (source : Box α) (fitting : Fitting α) : Harmless (warpPath source fitting) := by
  intro cause
  unfold warpPath
  split
  · exact nofun
  · split <;> exact nofun

private theorem harmless_finish (drawing : Drawing) (fitting : Fitting α)
    (measured : Except MeasureError (Measured α)) : Harmless (finish drawing fitting measured) := by
  cases measured with
  | error error => exact nofun
  | ok measured =>
    exact (harmless_sourceBox drawing measured).bind fun source => (harmless_warpPath source fitting).bind fun path => nofun

private theorem harmless_fit (measure : Measure Id α) (selection : List String) (drawing : Drawing) :
    Harmless (Id.run (fit measure selection drawing)) := by
  unfold fit
  split
  · next error failed =>
    intro cause same
    exact harmless_prepare drawing selection cause (failed.trans (congrArg Except.error (Except.error.inj same)))
  · exact harmless_finish drawing _ _

/-- What is fitted is the first of a selection, and the drawing has an element with its id. -/
theorem object_of_prepare {drawing : Drawing} {selection : List String} {fitting : Fitting α}
    (prepared : prepare drawing selection = .ok fitting) : selection.head? = some fitting.object ∧
      ∃ element, drawing.element? fitting.object = some element := by
  unfold prepare at prepared
  split at prepared
  · next object control _ =>
    obtain ⟨data, found, rest⟩ := bind_eq_ok.mp prepared
    obtain ⟨_, _, rest⟩ := bind_eq_ok.mp rest
    obtain ⟨_, _, rest⟩ := bind_eq_ok.mp rest
    obtain ⟨_, _, rest⟩ := bind_eq_ok.mp rest
    obtain ⟨_, _, same⟩ := bind_eq_ok.mp rest
    cases same
    refine ⟨rfl, ?_⟩
    unfold pathData at found
    split at found
    · cases found
    · next element named => exact ⟨element, named⟩
  · cases prepared

private theorem object_of_finish {drawing : Drawing} {fitting : Fitting α} {measured : Except MeasureError (Measured α)}
    {fitted : Fitted α} (finished : finish drawing fitting measured = .ok fitted) : fitted.object = fitting.object := by
  cases measured with
  | error error => cases finished
  | ok measured =>
    obtain ⟨_, _, rest⟩ := bind_eq_ok.mp finished
    obtain ⟨_, _, same⟩ := bind_eq_ok.mp rest
    cases same
    rfl

theorem object_of_fit {measure : Measure Id α} {selection : List String} {drawing : Drawing} {fitted : Fitted α}
    (found : Id.run (fit measure selection drawing) = .ok fitted) : selection.head? = some fitted.object ∧
      ∃ element, drawing.element? fitted.object = some element := by
  unfold fit at found
  split at found
  · cases found
  · next fitting prepared =>
    rw [object_of_finish found]
    exact object_of_prepare prepared

private theorem inStep_install {drawing : Drawing} (inStep : drawing.InStep) (envelope : Envelope)
    (outcome : Except (EnvelopeError Float) (Fitted Float)) : (envelope.install drawing outcome).2.InStep := by
  unfold install
  split
  · exact inStep
  · split
    · next set => exact inStep.setPathData set
    · exact inStep

end Envelope

theorem Drawing.Reachable.inStep {drawing : Drawing} (reachable : Reachable drawing) : drawing.InStep := by
  induction reachable with
  | parsed parsed => exact (inStep_parsed parsed).1
  | set _ set ih => exact ih.setPathData set
  | run _ envelope measure ih => exact Envelope.inStep_install ih envelope _

namespace Envelope

/-- Applied to any drawing that can be reached, an envelope either reports an error and leaves the drawing as it was,
or the first element of the selection has the data of the fitted path and nothing else was changed. -/
theorem run_redraws {drawing : Drawing} (reachable : drawing.Reachable) (envelope : Envelope)
    (measure : Measure Id Float) :
    (∃ error, Id.run (envelope.run measure drawing) = (.error error, drawing) ∧ ∀ cause, error ≠ .drawing cause) ∨
    ∃ fitted changed, Id.run (fit measure envelope.selection drawing) = .ok fitted ∧
      envelope.selection.head? = some fitted.object ∧
      Id.run (envelope.run measure drawing) = (.ok (report fitted), changed) ∧
      drawing.Redrawn fitted.object (fitted.path.data envelope.precision) changed := by
  have installed : Id.run (envelope.run measure drawing) =
      envelope.install drawing (Id.run (fit measure envelope.selection drawing)) := rfl
  rw [installed]
  cases found : Id.run (fit measure envelope.selection drawing) with
  | error error =>
    refine .inl ⟨error, rfl, fun cause same => harmless_fit measure envelope.selection drawing cause ?_⟩
    rw [found, same]
  | ok fitted =>
    obtain ⟨first, element, named⟩ := object_of_fit found
    obtain ⟨changed, set⟩ := Drawing.exists_setPathData named (fitted.path.data envelope.precision)
    refine .inr ⟨fitted, changed, rfl, first, ?_, Drawing.redrawn_setPathData reachable.inStep set⟩
    unfold install
    simp only
    rw [set]

theorem run_redraws_diagonal :
    let source := "<svg><path id='a' d='M0 0 L1 1'/><path id='b' d='M0 0 H2 V2 H0 Z'/></svg>"
    let drawing : Drawing :=
      ⟨source, [⟨"a", "path", 1, some "M0 0 L1 1"⟩, ⟨"b", "path", 2, some "M0 0 H2 V2 H0 Z"⟩], [("a", 0), ("b", 1)],
        none, none, []⟩
    let envelope : Envelope := ⟨["a", "b"], some 1⟩
    drawing.Reachable ∧ ∃ report changed,
      Id.run (envelope.run Measure.geometry drawing) = (.ok report, changed) ∧
      drawing.Redrawn "a" "M 0,0 C 0,0 2,2 2,2" changed := by
  intro source drawing envelope
  have parsed : Drawing.parse source = .ok drawing := by decide +kernel
  have after : (Id.run (envelope.run Measure.geometry drawing)).2 =
      ⟨source, [⟨"a", "path", 1, some "M 0,0 C 0,0 2,2 2,2"⟩, ⟨"b", "path", 2, some "M0 0 H2 V2 H0 Z"⟩],
        [("a", 0), ("b", 1)], none, none, [(1, "M 0,0 C 0,0 2,2 2,2")]⟩ := by decide +kernel
  have reachable : drawing.Reachable := .parsed parsed
  rcases run_redraws reachable envelope Measure.geometry with
    ⟨error, failed, _⟩ | ⟨fitted, changed, _, first, ran, redrawn⟩
  · rw [failed] at after
    exact absurd (congrArg Drawing.isModified after) Bool.false_ne_true
  · rw [ran] at after
    change changed = _ at after
    have object : fitted.object = "a" := (Option.some.inj first).symm
    have data : fitted.path.data envelope.precision = "M 0,0 C 0,0 2,2 2,2" := by
      obtain ⟨element, named, shown⟩ := redrawn.shown
      rw [object, after] at named
      cases named
      exact (Option.some.inj shown).symm
    rw [object, data] at redrawn
    exact ⟨reachable, report fitted, changed, ran, redrawn⟩

end Envelope
end EnvelopeWarp
