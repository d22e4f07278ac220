import EnvelopeWarp.CommandLine.Run
import EnvelopeWarp.Proofs.MemoryHost
import EnvelopeWarp.Proofs.StoredPaths

/-! What a run of the program writes. When the envelope is applied, the changed drawing is written; when the selection is
at fault, the drawing is written as it was read; and when anything else fails, nothing is written. -/

namespace EnvelopeWarp

theorem Drawing.render_of_parse {source : String} {drawing : Drawing} (parsed : parse source = .ok drawing) :
    drawing.render = .ok source := by
  obtain ⟨found, index, read⟩ := exists_readFrom parsed
  rw [render, isModified, read.unwritten, read.source]
  rfl

theorem Drawing.exists_render {source id data : String} {drawing changed : Drawing} (parsed : parse source = .ok drawing)
    (set : drawing.setPathData id data = .ok changed) : ∃ text, changed.render = .ok text := by
  obtain ⟨found, index, read⟩ := exists_readFrom parsed
  obtain ⟨edited, events, _⟩ := events_afterCalls read [(id, data)]
  have after : drawing.afterCalls [(id, data)] = changed := by
    simp only [afterCalls, List.foldl_cons, List.foldl_nil, afterCall, set]
  rw [after] at events
  unfold render
  split
  · exact ⟨_, bind_eq_ok.mpr ⟨edited, events, rfl⟩⟩
  · exact ⟨_, rfl⟩

/-- The selection is at fault. -/
def EnvelopeError.AtSelection (error : EnvelopeError Float) : Prop :=
  error = .selection ∨ (∃ id, error = .missingElement id) ∨ (∃ id tag, error = .notPath id tag) ∨
    ∃ id found, error = .tooFewCorners id found

theorem EnvelopeError.isRejection_iff {error : EnvelopeError Float} : error.isRejection = true ↔ error.AtSelection := by
  cases error <;> simp [isRejection, AtSelection]

namespace Query

private theorem quiet_ask (query : Query) (id : String) (dimension : Dimension) :
    Quiet (query.ask id dimension : ExceptT MeasureError (StateM Memory) Float).run :=
  (quiet_runProgram _ _).bind fun _ => quiet_pure _

theorem quiet_measure (query : Query) (id : String) (path : Path Float) :
    Quiet (query.measure id path : StateM Memory (Except MeasureError (Measured Float))) := by
  apply (quiet_ask query id .x).bind_except
  intro x
  apply (quiet_ask query id .y).bind_except
  intro y
  apply (quiet_ask query id .width).bind_except
  intro width
  apply (quiet_ask query id .height).bind_except
  intro height
  exact quiet_pure _

end Query

namespace Envelope

private theorem quiet_run {measure : Measure (StateM Memory) Float} (quiet : ∀ id path, Quiet (measure id path))
    (envelope : Envelope) (drawing : Drawing) : Quiet (envelope.run measure drawing) := by
  refine Quiet.bind ?_ fun _ => quiet_pure _
  unfold fit
  split
  · exact quiet_pure _
  · exact (quiet _ _).bind fun _ => quiet_pure _

/-- What is answered when the memory is in this state. -/
def answers (measure : Measure (StateM Memory) Float) (memory : Memory) : Measure Id Float :=
  fun id path => (memory.perform (measure id path)).1

private theorem perform_run (envelope : Envelope) (measure : Measure (StateM Memory) Float) (drawing : Drawing)
    (memory : Memory) :
    (memory.perform (envelope.run measure drawing)).1 = Id.run (envelope.run (answers measure memory) drawing) := by
  have fitted : (memory.perform (fit measure envelope.selection drawing)).1 =
      Id.run (fit (answers measure memory) envelope.selection drawing) := by
    unfold fit
    split <;> rfl
  exact congrArg (envelope.install drawing) fitted

private theorem run_eq_error {drawing changed : Drawing} {envelope : Envelope} {measure : Measure Id Float}
    {error : EnvelopeError Float} (failed : Id.run (envelope.run measure drawing) = (.error error, changed)) :
    changed = drawing := by
  change envelope.install drawing (Id.run (fit measure envelope.selection drawing)) = _ at failed
  unfold install at failed
  split at failed
  · cases failed
    rfl
  · split at failed
    · cases failed
    · cases failed
      rfl

end Envelope

namespace Arguments

theorem quiet_measure {arguments : Arguments} {settings : Settings} {measure : Measure (StateM Memory) Float}
    (chosen : arguments.measure settings = .ok measure) (id : String) (path : Path Float) : Quiet (measure id path) := by
  unfold Arguments.measure at chosen
  split at chosen
  · cases chosen
    unfold Measure.geometry
    split <;> exact quiet_pure _
  · cases chosen
    exact Query.quiet_measure _ id path
  · split at chosen
    · cases chosen
      exact quiet_pure _
    · cases chosen

variable (arguments : Arguments) (settings : Settings)

/-- A text was put behind what the output had, or into the file that the arguments name. Beyond that, programs may have
been run, and nothing else has happened. -/
def Delivered (text : String) (before after : Memory) : Prop :=
  match arguments.output with
  | none => Memory.Queried { before with output := before.output ++ text } after
  | some path => after.read path = .ok text ∧ ∃ place, (before.put place (some text)).Queried after

/-- The document can be read as a drawing, it is known how to measure, and what comes of the selection is this result. -/
structure Attempts (memory : Memory) (source : String) (drawing : Drawing)
    (result : Except (EnvelopeError Float) Report × Drawing) : Prop where
  read : memory.read arguments.document = .ok source
  parsed : Drawing.parse source = .ok drawing
  applied : ∃ measure : Measure (StateM Memory) Float, arguments.measure settings = .ok measure ∧
    (memory.perform ((⟨arguments.ids, settings.precision⟩ : Envelope).run measure drawing)).1 = result

variable {arguments : Arguments} {settings : Settings} {memory between after : Memory} {text source : String}
  {drawing : Drawing}

theorem Delivered.of_queried (queried : memory.Queried between) (delivered : arguments.Delivered text between after) :
    arguments.Delivered text memory after := by
  obtain ⟨calls, rfl⟩ := queried
  unfold Delivered at delivered ⊢
  split at delivered
  · obtain ⟨last, rfl⟩ := delivered
    exact ⟨last, rfl⟩
  · obtain ⟨kept, place, last, rfl⟩ := delivered
    exact ⟨kept, place, last, rfl⟩

/-- Concluding delivers what a drawing is written as, or it is refused. -/
theorem perform_conclude (rendered : drawing.render = .ok text) (outcome : Outcome) (memory : Memory) :
    (∃ after, memory.perform (arguments.conclude drawing outcome) = (.ok outcome, after) ∧
        arguments.Delivered text memory after) ∨
      ∃ path error, memory.perform (arguments.conclude drawing outcome) = (.error (.write path error), memory) := by
  unfold conclude writeDrawing Delivered
  rw [rendered]
  cases arguments.output with
  | none => exact .inl ⟨_, rfl, .refl _⟩
  | some path =>
    cases written : memory.write path text with
    | ok after =>
      obtain ⟨_, _, place, _, _, _, _, _, same⟩ := Memory.write_eq_ok written
      refine .inl ⟨after, ?_, Memory.read_write written, place, same ▸ .refl _⟩
      simp [Memory.attempt, written]
    | error error =>
      refine .inr ⟨path, error, ?_⟩
      simp [Memory.attempt, written]

/-- A run that concludes without a refusal delivers what it wrote, counted from before the programs that were asked. -/
theorem delivered_of_conclude (rendered : drawing.render = .ok text) (outcome : Outcome) {between after : Memory}
    (queried : memory.Queried between) {result : Except Failure Outcome}
    (concluded : between.perform (arguments.conclude drawing outcome) = (result, after))
    (written : ∀ path error, result ≠ .error (.write path error)) :
    result = .ok outcome ∧ arguments.Delivered text memory after := by
  rcases perform_conclude rendered outcome between with ⟨last, done, delivered⟩ | ⟨path, error, refused⟩
  · cases concluded.symm.trans done
    exact ⟨rfl, delivered.of_queried queried⟩
  · cases concluded.symm.trans refused
    exact absurd rfl (written path error)

/-- Where nothing can be attempted, the run fails before anything is done. -/
theorem perform_run_of_none (none_left : ∀ source drawing result, ¬arguments.Attempts settings memory source drawing result) :
    ∃ failure, memory.perform (arguments.run settings) = (.error failure, memory) := by
  unfold run Drawing.load
  simp only [Memory.perform_bind, Memory.perform_readText]
  cases read : memory.read arguments.document with
  | error error => exact ⟨_, rfl⟩
  | ok source =>
    simp only [Memory.perform_pure]
    cases parsed : Drawing.parse source with
    | error error => exact ⟨_, rfl⟩
    | ok drawing =>
      simp only [runOn]
      cases chosen : (arguments.measure settings : Except MeasureError (Measure (StateM Memory) Float)) with
      | error error => exact ⟨_, rfl⟩
      | ok measure => exact absurd ⟨read, parsed, measure, chosen, rfl⟩ (none_left source drawing _)

/-- Anything that can be attempted is, and its result decides how the run goes on. -/
theorem perform_run_of_attempts {result : Except (EnvelopeError Float) Report × Drawing}
    (attempts : arguments.Attempts settings memory source drawing result) : ∃ between, memory.Queried between ∧
      memory.perform (arguments.run settings) =
        match result.1 with
        | .ok report => between.perform (arguments.conclude result.2 (.applied report))
        | .error error =>
          if error.isRejection then between.perform (arguments.conclude result.2 (.rejected error))
          else (.error (.envelope error), between) := by
  obtain ⟨read, parsed, measure, chosen, rfl⟩ := attempts
  refine ⟨_, Envelope.quiet_run (quiet_measure chosen) ⟨arguments.ids, settings.precision⟩ drawing memory, ?_⟩
  unfold run Drawing.load
  simp only [Memory.perform_bind, Memory.perform_readText, read, Memory.perform_pure, parsed, runOn, chosen, envelope]
  generalize memory.perform ((⟨arguments.ids, settings.precision⟩ : Envelope).run measure drawing) = tried
  obtain ⟨⟨outcome, changed⟩, between⟩ := tried
  cases outcome with
  | ok report => rfl
  | error error => cases error <;> rfl

theorem Attempts.unique {other : String} {first second : Except (EnvelopeError Float) Report × Drawing} {drawn : Drawing}
    (one : arguments.Attempts settings memory source drawing first)
    (two : arguments.Attempts settings memory other drawn second) : source = other ∧ drawing = drawn ∧ first = second := by
  obtain ⟨read, parsed, measure, chosen, rfl⟩ := one
  obtain ⟨again, reparsed, _, same, rfl⟩ := two
  cases read.symm.trans again
  cases parsed.symm.trans reparsed
  cases chosen.symm.trans same
  exact ⟨rfl, rfl, rfl⟩

theorem Attempts.answered {result : Except (EnvelopeError Float) Report × Drawing}
    (attempts : arguments.Attempts settings memory source drawing result) :
    ∃ measure : Measure Id Float, Id.run ((⟨arguments.ids, settings.precision⟩ : Envelope).run measure drawing) = result := by
  obtain ⟨_, _, measure, _, rfl⟩ := attempts
  exact ⟨_, (Envelope.perform_run _ measure drawing memory).symm⟩

/-- How a run may end, what was attempted and what was delivered. -/
inductive Ends (arguments : Arguments) (settings : Settings) (before after : Memory) : Except Failure Outcome → Prop
  | rejected {source : String} {drawing : Drawing} {error : EnvelopeError Float} (fault : error.AtSelection)
      (attempts : arguments.Attempts settings before source drawing (.error error, drawing))
      (delivered : arguments.Delivered source before after) : Ends arguments settings before after (.ok (.rejected error))
  | applied {source data text : String} {drawing changed : Drawing} {report : Report}
      (attempts : arguments.Attempts settings before source drawing (.ok report, changed))
      (first : arguments.ids.head? = some report.object) (redrawn : drawing.Redrawn report.object data changed)
      (rendered : changed.render = .ok text)
      (delivered : arguments.Delivered text before after) : Ends arguments settings before after (.ok (.applied report))
  | failed {failure : Failure} (hopeless : ∀ source drawing result, arguments.Attempts settings before source drawing result →
      ∃ error, result = (.error error, drawing) ∧ ¬error.AtSelection)
      (queried : before.Queried after) : Ends arguments settings before after (.error failure)

section
variable {result : Except Failure Outcome} (ends : arguments.Ends settings memory after result)
include ends

private theorem Ends.rejected_iff {error : EnvelopeError Float} : result = .ok (.rejected error) ↔ error.AtSelection ∧
    ∃ source drawing, arguments.Attempts settings memory source drawing (.error error, drawing) := by
  constructor
  · rintro rfl
    cases ends with
    | rejected fault attempts _ => exact ⟨fault, _, _, attempts⟩
  · rintro ⟨fault, source, drawing, attempts⟩
    cases ends with
    | rejected _ others _ => cases (attempts.unique others).2.2; rfl
    | applied others _ _ _ _ => cases (attempts.unique others).2.2
    | failed hopeless _ =>
      obtain ⟨other, same, innocent⟩ := hopeless _ _ _ attempts
      cases same
      exact absurd fault innocent

private theorem Ends.applied_iff {report : Report} : result = .ok (.applied report) ↔
    ∃ source drawing changed, arguments.Attempts settings memory source drawing (.ok report, changed) := by
  constructor
  · rintro rfl
    cases ends with
    | applied attempts _ _ _ _ => exact ⟨_, _, _, attempts⟩
  · rintro ⟨source, drawing, changed, attempts⟩
    cases ends with
    | rejected _ others _ => cases (attempts.unique others).2.2
    | applied others _ _ _ _ => cases (attempts.unique others).2.2; rfl
    | failed hopeless _ =>
      obtain ⟨other, same, _⟩ := hopeless _ _ _ attempts
      cases same

end

private theorem ends_of_applied {report : Report} {changed : Drawing}
    (attempts : arguments.Attempts settings memory source drawing (.ok report, changed)) {result : Except Failure Outcome}
    (ran : memory.perform (arguments.run settings) = (result, after))
    (written : ∀ path error, result ≠ .error (.write path error)) : arguments.Ends settings memory after result := by
  obtain ⟨between, queried, continued⟩ := perform_run_of_attempts attempts
  rw [ran] at continued
  obtain ⟨measure, answered⟩ := attempts.answered
  obtain ⟨fitted, fit, rfl, set⟩ := Envelope.run_eq_ok.mp answered
  have first := (Envelope.object_of_fit fit).1
  obtain ⟨text, rendered⟩ := Drawing.exists_render attempts.parsed set
  have redrawn := Drawing.redrawn_setPathData (Drawing.inStep_parsed attempts.parsed).1 set
  obtain ⟨rfl, delivered⟩ := delivered_of_conclude rendered _ queried continued.symm written
  exact .applied attempts first redrawn rendered delivered

private theorem ends_of_error {error : EnvelopeError Float} {changed : Drawing}
    (attempts : arguments.Attempts settings memory source drawing (.error error, changed)) {result : Except Failure Outcome}
    (ran : memory.perform (arguments.run settings) = (result, after))
    (written : ∀ path error, result ≠ .error (.write path error)) : arguments.Ends settings memory after result := by
  obtain ⟨between, queried, continued⟩ := perform_run_of_attempts attempts
  rw [ran] at continued
  obtain ⟨measure, answered⟩ := attempts.answered
  obtain rfl := Envelope.run_eq_error answered
  by_cases fault : error.AtSelection
  · simp only [if_pos (EnvelopeError.isRejection_iff.mpr fault)] at continued
    have rendered := Drawing.render_of_parse attempts.parsed
    obtain ⟨rfl, delivered⟩ := delivered_of_conclude rendered _ queried continued.symm written
    exact .rejected fault attempts delivered
  · simp only [if_neg (mt EnvelopeError.isRejection_iff.mp fault)] at continued
    cases continued
    refine .failed (fun other drawn result again => ?_) queried
    obtain ⟨_, rfl, rfl⟩ := attempts.unique again
    exact ⟨error, rfl, fault⟩

/-- Whatever is attempted and fails or succeeds, the run ends accordingly. -/
theorem ends_of_run {result : Except Failure Outcome} (ran : memory.perform (arguments.run settings) = (result, after))
    (written : ∀ path error, result ≠ .error (.write path error)) : arguments.Ends settings memory after result := by
  by_cases attempted : ∃ source drawing result, arguments.Attempts settings memory source drawing result
  · obtain ⟨source, drawing, ⟨outcome, changed⟩, attempts⟩ := attempted
    cases outcome with
    | ok report => exact ends_of_applied attempts ran written
    | error error => exact ends_of_error attempts ran written
  · have none_left : ∀ source drawing result, ¬arguments.Attempts settings memory source drawing result :=
      fun source drawing result attempts => attempted ⟨source, drawing, result, attempts⟩
    obtain ⟨failure, failed⟩ := perform_run_of_none none_left
    cases ran.symm.trans failed
    exact .failed (fun source drawing result attempts => absurd attempts (none_left source drawing result)) (.refl _)

/-- A run ends in a rejection exactly when the selection is at fault, and then delivers what it has read; it ends in a
report exactly when the envelope is applied, and then delivers the drawing with the first selected element redrawn; and a
run that fails delivers nothing. -/
theorem run_delivers {result : Except Failure Outcome} (ran : memory.perform (arguments.run settings) = (result, after))
    (written : ∀ path error, result ≠ .error (.write path error)) :
    (∀ error, result = .ok (.rejected error) ↔ error.AtSelection ∧
      ∃ source drawing, arguments.Attempts settings memory source drawing (.error error, drawing)) ∧
    (∀ error, result = .ok (.rejected error) →
      ∃ source, memory.read arguments.document = .ok source ∧ arguments.Delivered source memory after) ∧
    (∀ report, result = .ok (.applied report) ↔
      ∃ source drawing changed, arguments.Attempts settings memory source drawing (.ok report, changed)) ∧
    (∀ report, result = .ok (.applied report) → ∃ source drawing changed data text,
      arguments.Attempts settings memory source drawing (.ok report, changed) ∧
      arguments.ids.head? = some report.object ∧ drawing.Redrawn report.object data changed ∧
      changed.render = .ok text ∧ arguments.Delivered text memory after) ∧
    (∀ failure, result = .error failure → memory.Queried after) := by
  have ends := ends_of_run ran written
  refine ⟨fun error => ends.rejected_iff, fun error same => ?_, fun report => ends.applied_iff, fun report same => ?_,
    fun failure same => ?_⟩
  · cases same
    cases ends with
    | rejected fault attempts delivered => exact ⟨_, attempts.read, delivered⟩
  · cases same
    cases ends with
    | applied attempts first redrawn rendered delivered =>
      exact ⟨_, _, _, _, _, attempts, first, redrawn, rendered, delivered⟩
  · cases same
    cases ends with
    | failed _ queried => exact queried

private theorem read_single {memory : Memory} {source : String} (current : memory.current = [])
    (held : memory.look ["d"] = .file (some source)) : memory.read "d" = .ok source := by
  have split : "d".splitOn "/" = ["d"] := by
    rw [String.splitOn, if_neg (by decide), String.splitOnAux, if_neg (by decide), if_neg (by decide),
      String.splitOnAux, if_pos (by decide)]
    rfl
  have names : FileName.names "d" = ["d"] := by
    rw [FileName.names, split]
    decide
  have checked : Memory.checkPath "d" = .ok () := by
    rw [Memory.checkPath, if_neg (by simp), if_neg (by decide)]
    rfl
  have start : memory.start "d" = [] := by
    rw [Memory.start, current, ite_self]
  have above : memory.above "d" = .ok [] := by
    unfold Memory.above
    rw [checked, names, start]
    simp
  have located : memory.locate "d" = .ok ["d"] := by
    unfold Memory.locate
    rw [above, names]
    rfl
  have here : "d".endsWith "/" = false := by decide +kernel
  have found : memory.find "d" = .ok (["d"], .file (some source)) := by
    refine bind_eq_ok.mpr ⟨["d"], located, ?_⟩
    rw [held, here]
    rfl
  exact bind_eq_ok.mpr ⟨_, found, rfl⟩

/-- One id is no selection, and what is written is what was read. With two ids the first path is redrawn. -/
theorem run_delivers_diagonal :
    let source := "<svg><path id='a' d='M0 0 L1 1'/><path id='b' d='M0 0 H2 V2 H0 Z'/></svg>"
    let redrawn := "<svg><path id=\x22a\x22 d=\x22M 0,0 C 0,0 2,2 2,2\x22/><path id='b' d='M0 0 H2 V2 H0 Z'/></svg>"
    let memory : Memory := ⟨[(["d"], some source)], [], [], [], [], [], [], "", ""⟩
    let arguments (ids : List String) : Arguments := ⟨ids, none, none, none, none, none, none, "d"⟩
    (∃ after, memory.perform ((arguments ["a"]).run .standard) = (.ok (.rejected .selection), after) ∧
      after.output = source) ∧
    ∃ report after, memory.perform ((arguments ["a", "b"]).run .standard) = (.ok (.applied report), after) ∧
      report.object = "a" ∧ after.output = redrawn := by
  intro source redrawn memory arguments
  let drawing : Drawing :=
    ⟨source, [⟨"a", "path", 1, some "M0 0 L1 1"⟩, ⟨"b", "path", 2, some "M0 0 H2 V2 H0 Z"⟩], [("a", 0), ("b", 1)],
      none, none, []⟩
  have parsed : Drawing.parse source = .ok drawing := by decide +kernel
  have read : memory.read "d" = .ok source := read_single rfl rfl
  constructor
  · have attempts : (arguments ["a"]).Attempts .standard memory source drawing (.error .selection, drawing) :=
      ⟨read, parsed, Measure.geometry, rfl, rfl⟩
    obtain ⟨between, _, continued⟩ := perform_run_of_attempts attempts
    have ran : memory.perform ((arguments ["a"]).run .standard) =
        (.ok (.rejected .selection), { between with output := between.output ++ source }) := continued
    obtain ⟨_, delivers, _⟩ := run_delivers ran nofun
    obtain ⟨text, same, delivered⟩ := delivers .selection rfl
    cases read.symm.trans same
    obtain ⟨calls, outcome⟩ := delivered
    exact ⟨_, ran, congrArg Memory.output outcome⟩
  · let envelope : Envelope := ⟨["a", "b"], Settings.standard.precision⟩
    have result : (memory.perform (envelope.run Measure.geometry drawing)).1.1.toOption.isSome = true ∧
        (memory.perform (envelope.run Measure.geometry drawing)).1.2.render = .ok redrawn := by
      decide +kernel
    have attempts : (arguments ["a", "b"]).Attempts .standard memory source drawing
        (memory.perform (envelope.run Measure.geometry drawing)).1 := ⟨read, parsed, Measure.geometry, rfl, rfl⟩
    generalize (memory.perform (envelope.run Measure.geometry drawing)).1 = reached at result attempts
    obtain ⟨outcome, changed⟩ := reached
    cases outcome with
    | error error => cases result.1
    | ok report =>
      obtain ⟨between, _, continued⟩ := perform_run_of_attempts attempts
      have concluded : between.perform ((arguments ["a", "b"]).conclude changed (.applied report)) =
          (.ok (.applied report), { between with output := between.output ++ redrawn }) := by
        unfold conclude writeDrawing
        rw [result.2]
        rfl
      have ran := continued.trans concluded
      obtain ⟨_, _, _, delivers, _⟩ := run_delivers ran nofun
      obtain ⟨_, _, _, _, text, again, first, _, rendered, calls, outcome⟩ := delivers report rfl
      obtain ⟨_, _, same⟩ := attempts.unique again
      cases same
      cases result.2.symm.trans rendered
      exact ⟨report, _, ran, (Option.some.inj first).symm, congrArg Memory.output outcome⟩

end Arguments
end EnvelopeWarp
