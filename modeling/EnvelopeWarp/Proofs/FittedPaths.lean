import EnvelopeWarp.Envelope.Basic
import EnvelopeWarp.Proofs.DrawnPaths
import EnvelopeWarp.Proofs.LocatedElements
import EnvelopeWarp.Proofs.MappedPaths

/-! What a fit rests on. An envelope fits a path exactly when the first id of the selection names a path that can be
read, the second one names a path with four anchors, the box that was measured can be divided by, and the warp of this
box has an answer for every point of the path. -/

namespace EnvelopeWarp
variable {α : Type}

theorem Quad.ofPoints?_eq_some {points : List (Point α)} {quad : Quad α} :
    ofPoints? points = some quad ↔ ∃ others, points = quad.corners ++ others := by
  constructor
  · intro found
    unfold ofPoints? at found
    split at found
    · cases found
      exact ⟨_, rfl⟩
    · cases found
  · rintro ⟨others, rfl⟩
    rfl

theorem Path.parse_of_commands [Scalar α] {data : String} {commands : List (Command Decimal)}
    (read : PathData.commands data.toList = .ok commands) :
    parse data = .ok (ofCommands (commands.map (Command.map (Scalar.ofDecimal (α := α))))) := by
  rw [parse, ofData, read]

theorem Path.parse_lines [Scalar α] {data : String} {start : Point Decimal} {stops : List (Point Decimal)}
    (read : PathData.commands data.toList = .ok (.move false start :: stops.map (.line false))) :
    parse data = .ok ⟨[⟨(start :: stops).map fun p => .corner (p.map (Scalar.ofDecimal (α := α))), false⟩]⟩ := by
  have commands : (Command.move false start :: stops.map (.line false)).map (Command.map (Scalar.ofDecimal (α := α))) =
      .move false (start.map Scalar.ofDecimal) :: (stops.map (Point.map Scalar.ofDecimal)).map (.line false) := by
    simp [Command.map, Function.comp_def]
  rw [parse_of_commands read, commands, ofCommands_lines]
  simp [Function.comp_def]

namespace Envelope

private theorem pathData_eq_ok {drawing : Drawing} {id data : String} :
    (pathData drawing id : Except (EnvelopeError α) String) = .ok data ↔
      ∃ element, drawing.element? id = some element ∧ element.isPath = true ∧ element.pathData = some data := by
  unfold pathData
  cases drawing.element? id with
  | none => simp
  | some element =>
    cases path : element.isPath with
    | false => simp [path]
    | true => cases shown : element.pathData <;> simp [path, shown]

private theorem corners_eq_ok {id : String} {path : Path α} {quad : Quad α} :
    corners id path = .ok quad ↔ ∃ others, path.anchors = quad.corners ++ others := by
  rw [← Quad.ofPoints?_eq_some]
  unfold corners
  cases Quad.ofPoints? path.anchors <;> simp

variable [Scalar α]

/-- An id names a path of the drawing, and its data reads as this path. -/
def Shows (drawing : Drawing) (id : String) (path : Path α) : Prop :=
  ∃ element data, drawing.element? id = some element ∧ element.isPath = true ∧ element.pathData = some data ∧
    Path.parse data = .ok path

private theorem shows_iff {drawing : Drawing} {id : String} {path : Path α} : Shows drawing id path ↔
    ∃ data, (pathData drawing id : Except (EnvelopeError α) String) = .ok data ∧
      (parsePath id data : Except (EnvelopeError α) (Path α)) = .ok path := by
  have read : ∀ data, (parsePath id data : Except (EnvelopeError α) (Path α)) = .ok path ↔ Path.parse data = .ok path := by
    intro data
    unfold parsePath
    cases Path.parse (α := α) data <;> simp
  simp only [pathData_eq_ok, read]
  constructor
  · rintro ⟨element, data, named, path, shown, parsed⟩
    exact ⟨data, ⟨element, named, path, shown⟩, parsed⟩
  · rintro ⟨data, ⟨element, named, path, shown⟩, parsed⟩
    exact ⟨element, data, named, path, shown, parsed⟩

theorem Shows.exists_set {drawing : Drawing} {id : String} {path : Path α} (shown : Shows drawing id path)
    (data : String) : ∃ changed, drawing.setPathData id data = .ok changed := by
  obtain ⟨element, _, named, _⟩ := shown
  exact Drawing.exists_setPathData named data

/-- The object is the first path of a selection, and the target is formed by the first anchors of the second one. -/
structure Prepared (drawing : Drawing) (selection : List String) (fitting : Fitting α) : Prop where
  selected : ∃ others, selection = fitting.object :: fitting.control :: others
  object : Shows drawing fitting.object fitting.path
  control : ∃ path others, Shows drawing fitting.control path ∧ path.anchors = fitting.target.corners ++ others

private theorem prepare_eq_ok {drawing : Drawing} {selection : List String} {fitting : Fitting α} :
    prepare drawing selection = .ok fitting ↔ Prepared drawing selection fitting := by
  constructor
  · intro prepared
    unfold prepare at prepared
    split at prepared
    · next object control others =>
      obtain ⟨objectData, first, rest⟩ := bind_eq_ok.mp prepared
      obtain ⟨controlData, second, rest⟩ := bind_eq_ok.mp rest
      obtain ⟨path, read, rest⟩ := bind_eq_ok.mp rest
      obtain ⟨target, formed, rest⟩ := bind_eq_ok.mp rest
      obtain ⟨drawn, found, same⟩ := bind_eq_ok.mp rest
      cases same
      obtain ⟨more, anchors⟩ := corners_eq_ok.mp formed
      exact ⟨⟨others, rfl⟩, shows_iff.mpr ⟨objectData, first, found⟩, path, more,
        shows_iff.mpr ⟨controlData, second, read⟩, anchors⟩
    · cases prepared
  · rintro ⟨⟨others, rfl⟩, object, path, more, control, anchors⟩
    obtain ⟨objectData, first, found⟩ := shows_iff.mp object
    obtain ⟨controlData, second, read⟩ := shows_iff.mp control
    have formed : corners fitting.control path = .ok fitting.target := corners_eq_ok.mpr ⟨more, anchors⟩
    unfold prepare
    exact bind_eq_ok.mpr ⟨objectData, first, bind_eq_ok.mpr ⟨controlData, second, bind_eq_ok.mpr ⟨path, read,
      bind_eq_ok.mpr ⟨fitting.target, formed, bind_eq_ok.mpr ⟨fitting.path, found, rfl⟩⟩⟩⟩⟩

private theorem warpPath_eq_ok {source : Box α} {fitting : Fitting α} {path : Path α} :
    warpPath source fitting = .ok path ↔ source.validate = .ok () ∧
      fitting.path.Mapped (fun p q => (⟨source, fitting.target⟩ : Warp α).apply p = .ok q) path := by
  rw [← Path.mapPoints_eq_ok]
  unfold warpPath Warp.ofBox Warp.applyPath
  cases source.validate with
  | error fault => simp [bind, Except.bind]
  | ok checked =>
    simp only [bind, Except.bind, pure, Except.pure, true_and]
    cases fitting.path.mapPoints (Warp.apply ⟨source, fitting.target⟩) <;> simp

/-- A path of the drawing was fitted point by point. -/
structure Fits (drawing : Drawing) (selection : List String) (path : Path α) (fitted : Fitted α) : Prop where
  prepared : Prepared drawing selection ⟨fitted.object, fitted.control, fitted.target, path⟩
  usable : fitted.source.validate = .ok ()
  mapped : path.Mapped (fun p q => (⟨fitted.source, fitted.target⟩ : Warp α).apply p = .ok q) fitted.path

theorem fit_eq_ok {measure : Measure Id α} {selection : List String} {drawing : Drawing} {fitted : Fitted α} :
    Id.run (fit measure selection drawing) = .ok fitted ↔ ∃ path measured, Fits drawing selection path fitted ∧
      Id.run (measure fitted.object path) = .ok measured ∧ sourceBox drawing measured = .ok fitted.source := by
  constructor
  · intro found
    unfold fit at found
    split at found
    · cases found
    · next fitting prepared =>
      change finish drawing fitting (Id.run (measure fitting.object fitting.path)) = .ok fitted at found
      cases answer : Id.run (measure fitting.object fitting.path) with
      | error fault =>
        rw [answer] at found
        cases found
      | ok measured =>
        rw [answer] at found
        obtain ⟨source, boxed, rest⟩ := bind_eq_ok.mp found
        obtain ⟨path, warped, same⟩ := bind_eq_ok.mp rest
        cases same
        obtain ⟨usable, mapped⟩ := warpPath_eq_ok.mp warped
        exact ⟨fitting.path, measured, ⟨prepare_eq_ok.mp prepared, usable, mapped⟩, answer, boxed⟩
  · rintro ⟨path, measured, fits, answer, boxed⟩
    unfold fit
    rw [prepare_eq_ok.mpr fits.prepared]
    change finish drawing _ (Id.run (measure fitted.object path)) = .ok fitted
    rw [answer]
    exact bind_eq_ok.mpr ⟨fitted.source, boxed, bind_eq_ok.mpr
      ⟨fitted.path, warpPath_eq_ok.mpr ⟨fits.usable, fits.mapped⟩, rfl⟩⟩

/-- Measured by what it draws, a path is warped from its own bounds. -/
theorem fit_geometry_eq_ok {selection : List String} {drawing : Drawing} {fitted : Fitted α} :
    Id.run (fit Measure.geometry selection drawing) = .ok fitted ↔
      ∃ path, Fits drawing selection path fitted ∧ path.bounds = some fitted.source := by
  rw [fit_eq_ok]
  refine exists_congr fun path => ?_
  have measures : ∀ measured : Measured α,
      Id.run (Measure.geometry fitted.object path) = .ok measured ∧ sourceBox drawing measured = .ok fitted.source ↔
        measured = ⟨fitted.source, .topDown⟩ ∧ path.bounds = some fitted.source := by
    intro measured
    unfold Measure.geometry
    cases path.bounds with
    | none => simp [Id.run, pure]
    | some box =>
      simp only [Id.run, pure, Except.ok.injEq, Option.some.injEq]
      constructor
      · rintro ⟨rfl, same⟩
        cases same
        exact ⟨rfl, rfl⟩
      · rintro ⟨rfl, rfl⟩
        exact ⟨rfl, rfl⟩
  constructor
  · rintro ⟨measured, fits, answer⟩
    exact ⟨fits, ((measures measured).mp answer).2⟩
  · rintro ⟨fits, bounds⟩
    exact ⟨_, fits, (measures _).mpr ⟨rfl, bounds⟩⟩

end Envelope
end EnvelopeWarp
