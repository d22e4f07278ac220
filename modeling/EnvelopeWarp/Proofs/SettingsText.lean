import EnvelopeWarp.Proofs.JsonData
import EnvelopeWarp.Proofs.Readings
import EnvelopeWarp.Proofs.TomlSections
import EnvelopeWarp.Settings.Data

/-! Settings are read back from what is written of them. Tables hold whatever settings hold. Structured text has no
notation for a number that is not finite, and a box that has lost such a number is no box any more. -/

namespace EnvelopeWarp
open Toml (Key Section Scalar heads_bare heads_point bare_of_all)

namespace Box

def numbers (box : Box Float) : List Float :=
  [box.x, box.y, box.width, box.height]

/-- What is left of a box in structured data. -/
def kept (box : Box Float) : Data :=
  .record [("x", Json.kept box.x), ("y", Json.kept box.y), ("width", Json.kept box.width),
    ("height", Json.kept box.height)]

private theorem pretty_kept (box : Box Float) (depth : Nat) :
    Json.pretty depth box.data = Json.pretty depth box.kept := by
  simp only [data, kept, Json.pretty, Json.prettyFields, Json.pretty_kept]

private theorem readable_kept (box : Box Float) (faithful : ∀ value ∈ box.numbers, Json.ReadsBack value) :
    Json.Readable box.kept := by
  have each : ∀ value ∈ box.numbers, Json.Readable (Json.kept value) := fun value member =>
    Json.readable_kept (faithful value member)
  refine .record ?_
  simpa [numbers] using each

private theorem ofData?_kept (box : Box Float) :
    ofData? .json box.kept = if box.numbers.all Float.isFinite then some box else none := by
  have parts : ofData? .json box.kept = (Json.kept box.x).real?.bind fun x => (Json.kept box.y).real?.bind fun y =>
      (Json.kept box.width).real?.bind fun width => (Json.kept box.height).real?.bind fun height =>
        some ⟨x, y, width, height⟩ := rfl
  rw [parts]
  simp only [Json.real?_kept, numbers, List.all_cons, List.all_nil]
  by_cases x : box.x.isFinite = true <;> by_cases y : box.y.isFinite = true <;>
    by_cases width : box.width.isFinite = true <;> by_cases height : box.height.isFinite = true <;>
    simp [x, y, width, height]

end Box

namespace Settings

/-- There is a notation in every format for each number that is set. -/
def isFinite (settings : Settings) : Bool :=
  settings.bounds.fixed.all fun box => box.numbers.all Float.isFinite

/-- Each number that is set is read back from its own text. -/
def ReadsBack (settings : Settings) : Prop :=
  ∀ box ∈ settings.bounds.fixed, ∀ value ∈ box.numbers, Json.ReadsBack value

/-- The settings as they are read from tables. What is not set has no field. -/
def table (settings : Settings) : Data :=
  .record [
    ("bounds", .record ([
      ("source", .text settings.bounds.source.name),
      ("inkscape_program", .text settings.bounds.program),
      ("orientation", settings.bounds.orientation.data)] ++
      settings.bounds.fixed.toList.map fun box => ("fixed", box.data))),
    ("output", .record (settings.precision.toList.map fun precision => ("precision", .whole precision))),
    ("logging", .record [
      ("format", .text settings.logging.format.name),
      ("level", .text settings.logging.level)])]

/-- The keys that the headers of a file give. -/
def keys (settings : Settings) : List Key :=
  (⟨[], "bounds"⟩ : Key) :: (settings.bounds.fixed.toList.map fun _ => (⟨["bounds"], "fixed"⟩ : Key)) ++
    [(⟨[], "output"⟩ : Key), ⟨[], "logging"⟩]

private theorem legible_sections {settings : Settings}
    (small : ∀ precision ∈ settings.precision, precision < Toml.wholeLimit) :
    ∀ part ∈ settings.keys.zip settings.sections, part.2.Legible part.1 := by
  have bounds (source program orientation : String) : Section.Legible ⟨"bounds", [("source", .text source),
      ("inkscape_program", .text program), ("orientation", .text orientation)]⟩ ⟨[], "bounds"⟩ :=
    .of_names (@heads_bare "bounds" (bare_of_all rfl)) ["source", "inkscape_program", "orientation"] rfl rfl
      (by simp [Scalar.Fits])
  have fixed (box : Box Float) : (boxSection box).Legible ⟨["bounds"], "fixed"⟩ :=
    .of_names (@heads_point "bounds" "fixed" (bare_of_all rfl) (bare_of_all rfl)) ["x", "y", "width", "height"]
      rfl rfl (by simp [boxSection, Scalar.Fits])
  have output : Section.Legible ⟨"output", settings.precision.toList.map fun precision =>
      ("precision", .natural precision)⟩ ⟨[], "output"⟩ := by
    refine ⟨@heads_bare "output" (bare_of_all rfl), fun entry member => ?_, fun entry member => ?_⟩
    · obtain ⟨precision, _, rfl⟩ := List.mem_map.mp member
      exact @bare_of_all "precision".toList rfl
    · obtain ⟨precision, set, rfl⟩ := List.mem_map.mp member
      exact small precision (Option.mem_toList.mp set)
  have logging (format level : String) : Section.Legible ⟨"logging", [("format", .text format), ("level", .text level)]⟩
      ⟨[], "logging"⟩ :=
    .of_names (@heads_bare "logging" (bare_of_all rfl)) ["format", "level"] rfl rfl (by simp [Scalar.Fits])
  obtain ⟨⟨source, program, orientation, box⟩, precision, ⟨format, level⟩⟩ := settings
  cases box with
  | none =>
    exact List.forall_mem_cons.mpr ⟨bounds _ _ _, List.forall_mem_cons.mpr ⟨output,
      List.forall_mem_cons.mpr ⟨logging _ _, List.forall_mem_nil _⟩⟩⟩
  | some box =>
    exact List.forall_mem_cons.mpr ⟨bounds _ _ _, List.forall_mem_cons.mpr ⟨fixed box,
      List.forall_mem_cons.mpr ⟨output, List.forall_mem_cons.mpr ⟨logging _ _, List.forall_mem_nil _⟩⟩⟩⟩

private theorem foldlM_add_sections (settings : Settings) : ∃ sheet,
    ((settings.keys.zip settings.sections).flatMap fun part => part.2.statements part.1).foldlM Toml.Sheet.add ⟨[], []⟩ =
      some sheet ∧ .record (Toml.entriesData sheet.entries) = settings.table := by
  obtain ⟨⟨source, program, orientation, fixed⟩, precision, ⟨format, level⟩⟩ := settings
  cases fixed <;> cases precision <;> exact ⟨_, rfl, rfl⟩

private theorem ofData?_table (settings : Settings) : ofData? .toml settings.table = some settings := by
  obtain ⟨⟨source, program, orientation, fixed⟩, precision, ⟨format, level⟩⟩ := settings
  cases fixed <;> cases precision <;> cases source <;> cases orientation <;> cases format <;> rfl

private theorem map_snd_zip_sections (settings : Settings) :
    (settings.keys.zip settings.sections).map Prod.snd = settings.sections := by
  obtain ⟨⟨source, program, orientation, fixed⟩, precision, logging⟩ := settings
  cases fixed <;> rfl

private theorem read?_write_toml {settings : Settings}
    (small : ∀ precision ∈ settings.precision, precision < Toml.wholeLimit) :
    read? .toml (settings.write .toml) = some settings := by
  obtain ⟨sheet, added, entries⟩ := settings.foldlM_add_sections
  have statements := Section.statements?_writeAll (legible_sections small)
  rw [map_snd_zip_sections] at statements
  have unmarked : Toml.dropOrderMark (Section.writeAll settings.sections) = Section.writeAll settings.sections := by
    obtain ⟨⟨source, program, orientation, fixed⟩, precision, logging⟩ := settings
    cases fixed <;> rfl
  have read : Toml.read? (Section.writeAll settings.sections) = some settings.table := by
    unfold Toml.read?
    rw [unmarked, statements, Option.bind_eq_bind, Option.bind_some, added, ← entries]
    rfl
  unfold read? write
  simp only [String.toList_ofList]
  rw [read, Option.bind_some, ofData?_table]

/-- The settings as structured data, given what the fixed box is written as. -/
def dataWith (settings : Settings) (fixed : Data) : Data :=
  .record [
    ("bounds", .record [
      ("source", .text settings.bounds.source.name),
      ("inkscape_program", .text settings.bounds.program),
      ("orientation", settings.bounds.orientation.data),
      ("fixed", fixed)]),
    ("output", .record [
      ("precision", match settings.precision with
        | some precision => .whole precision
        | none => .nothing)]),
    ("logging", .record [
      ("format", .text settings.logging.format.name),
      ("level", .text settings.logging.level)])]

private theorem data_eq_dataWith (settings : Settings) :
    settings.data = settings.dataWith ((settings.bounds.fixed.map Box.data).getD .nothing) := by
  obtain ⟨⟨source, program, orientation, fixed⟩, precision, logging⟩ := settings
  cases fixed <;> rfl

private theorem pretty_dataWith (settings : Settings) {first second : Data}
    (same : ∀ depth, Json.pretty depth first = Json.pretty depth second) :
    Json.pretty 0 (settings.dataWith first) = Json.pretty 0 (settings.dataWith second) := by
  simp only [dataWith, Json.pretty, Json.prettyFields, same]

private theorem readable_dataWith {settings : Settings}
    (small : ∀ precision ∈ settings.precision, precision < Json.wordLimit)
    {fixed : Data} (readable : Json.Readable fixed) : Json.Readable (settings.dataWith fixed) := by
  have precision : Json.Readable (match settings.precision with
      | some precision => .whole precision
      | none => .nothing) := by
    split
    · next precision set => exact .whole (Int.ofNat_lt.mpr (small precision set)) (by omega)
    · exact .nothing
  simp only [dataWith, Orientation.data]
  refine .record ?_
  simp only [List.forall_mem_cons, List.not_mem_nil, false_implies, implies_true, and_true]
  refine ⟨.record ?_, .record ?_, .record ?_⟩
  all_goals simp only [List.forall_mem_cons, List.not_mem_nil, false_implies, implies_true, and_true]
  · exact ⟨.text _, .text _, .text _, readable⟩
  · exact precision
  · exact ⟨.text _, .text _⟩

private theorem ofData?_dataWith (settings : Settings) (fixed : Data) : ofData? .json (settings.dataWith fixed) =
    (Data.optional? (Box.ofData? .json) fixed).map fun box =>
      { settings with bounds := { settings.bounds with fixed := box } } := by
  obtain ⟨⟨source, program, orientation, other⟩, precision, ⟨format, level⟩⟩ := settings
  have bounds : BoundsSettings.ofData? .json (.record [("source", .text source.name), ("inkscape_program", .text program),
      ("orientation", orientation.data), ("fixed", fixed)]) =
        (Data.optional? (Box.ofData? .json) fixed).map fun box => ⟨source, program, orientation, box⟩ := by
    rw [Option.map_eq_bind]
    cases source <;> cases orientation <;> rfl
  have settings_read : ofData? .json (dataWith ⟨⟨source, program, orientation, other⟩, precision, ⟨format, level⟩⟩ fixed) =
      (BoundsSettings.ofData? .json (.record [("source", .text source.name), ("inkscape_program", .text program),
        ("orientation", orientation.data), ("fixed", fixed)])).bind fun bounds =>
          some ⟨bounds, precision, ⟨format, level⟩⟩ := by
    cases precision <;> cases format <;> rfl
  rw [settings_read, bounds]
  cases Data.optional? (Box.ofData? .json) fixed <;> rfl

theorem read?_write_json {settings : Settings} (small : ∀ precision ∈ settings.precision, precision < Json.wordLimit)
    (faithful : settings.ReadsBack) :
    read? .json (settings.write .json) = if settings.isFinite then some settings else none := by
  have reads {fixed : Data} (same : ∀ depth, Json.pretty depth ((settings.bounds.fixed.map Box.data).getD .nothing) =
      Json.pretty depth fixed) (readable : Json.Readable fixed) : read? .json (settings.write .json) =
        (Data.optional? (Box.ofData? .json) fixed).map fun box =>
          { settings with bounds := { settings.bounds with fixed := box } } := by
    unfold read? write
    simp only [String.toList_ofList]
    rw [data_eq_dataWith, pretty_dataWith settings same, Json.read?_pretty (readable_dataWith small readable),
      Option.bind_some, ofData?_dataWith]
  obtain ⟨⟨source, program, orientation, fixed⟩, precision, logging⟩ := settings
  cases fixed with
  | none => exact reads (fun _ => rfl) .nothing
  | some box =>
    have value : Data.optional? (Box.ofData? .json) box.kept = (Box.ofData? .json box.kept).map some := rfl
    have finite : isFinite ⟨⟨source, program, orientation, some box⟩, precision, logging⟩ =
      box.numbers.all Float.isFinite := rfl
    rw [reads box.pretty_kept (box.readable_kept (faithful box rfl)), value, box.ofData?_kept, finite]
    split <;> rfl

/-- Settings that pass their check have no more digits than there are, so every format can hold their number. -/
theorem precision_le {settings : Settings} (valid : settings.validate = .ok ()) :
    ∀ precision ∈ settings.precision, precision ≤ maxPrecision := by
  obtain ⟨_, _, rest⟩ := bind_eq_ok.mp valid
  obtain ⟨_, _, rest⟩ := bind_eq_ok.mp rest
  obtain ⟨_, checked, _⟩ := bind_eq_ok.mp rest
  intro precision set
  unfold checkPrecision at checked
  rw [Option.mem_def.mp set] at checked
  simp only at checked
  split at checked
  · assumption
  · cases checked

/-- What is written of valid settings is read as these settings, unless it is structured text and there is a number in
them that has no notation there. -/
theorem read?_write {settings : Settings} (valid : settings.validate = .ok ()) {format : Format}
    (faithful : format = .json → settings.ReadsBack) :
    read? format (settings.write format) =
      if format = .json ∧ settings.isFinite = false then none else some settings := by
  cases format with
  | toml =>
    rw [if_neg fun both => nomatch both.1]
    refine read?_write_toml fun precision set => Nat.lt_of_le_of_lt (precision_le valid precision set) ?_
    decide
  | json =>
    rw [read?_write_json (fun precision set => Nat.lt_of_le_of_lt (precision_le valid precision set) (by decide))
      (faithful rfl)]
    cases settings.isFinite <;> rfl

end Settings
end EnvelopeWarp
