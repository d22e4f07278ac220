import EnvelopeWarp.CommandLine.Run
import EnvelopeWarp.Proofs.MemoryHost
import EnvelopeWarp.Proofs.SettingsFiles

/-! The settings of a run. A file must hold settings that pass their check as they stand, whatever the arguments are. Then
the arguments take the place of what they are given for, and what the file has there no longer matters. -/

namespace EnvelopeWarp

def Memory.userFile? (memory : Memory) : Option String :=
  Settings.userFile? (memory.environment.lookup "XDG_CONFIG_HOME") (memory.environment.lookup "HOME")

namespace Settings

/-- A file can be read and holds settings; whether they can be used is left open. -/
def Holds (settings : Settings) (memory : Memory) (path : String) : Prop :=
  ∃ text format, memory.read path = .ok text ∧ formatOf? path = some format ∧ read? format text = some settings

variable {memory : Memory} {path : String} {found settings : Settings}

private theorem checked_of_invalid {fault : SettingFault} (invalid : settings.validate = .error fault) :
    settings.checked = .error (.invalid fault) := by
  rw [checked, invalid]

theorem Holds.load (holds : found.Holds memory path) : memory.perform (load path) = (found.checked, memory) := by
  obtain ⟨text, format, read, known, held⟩ := holds
  rw [perform_load read]
  simp only [ofFile, known, held]

private theorem holds_of_load (loaded : (memory.perform (load path)).1 = .ok found) : found.Holds memory path := by
  cases read : memory.read path with
  | error error =>
    simp only [load, Memory.perform_bind, Memory.perform_readText, read] at loaded
    cases loaded
  | ok text =>
    rw [perform_load read] at loaded
    simp only [ofFile] at loaded
    split at loaded
    · cases loaded
    · next format known =>
      split at loaded
      · cases loaded
      · next settings held =>
        obtain ⟨rfl, _⟩ := checked_eq_ok.mp loaded
        exact ⟨text, format, read, known, held⟩

private theorem perform_loadUser (memory : Memory) : memory.perform loadUser =
    match memory.userFile? with
    | none => (.ok standard, memory)
    | some path => if memory.holdsFile path then memory.perform (load path) else (.ok standard, memory) := by
  simp only [loadUser, Memory.perform_bind, Memory.perform_environment?]
  change memory.perform (match memory.userFile? with
    | none => pure (.ok standard)
    | some path => Host.isFile path >>= fun there => if there then load path else pure (.ok standard)) = _
  cases memory.userFile? with
  | none => rfl
  | some path =>
    simp only [Memory.perform_bind, Memory.perform_isFile]
    split
    · next there =>
      simp only [there]
      rfl
    · next absent =>
      simp only [absent]
      rfl

/-- A fixed source has its box. -/
theorem fixed_of_validate (valid : settings.validate = .ok ()) (source : settings.bounds.source = .fixed) :
    ∃ box, settings.bounds.fixed = some box := by
  obtain ⟨_, _, rest⟩ := bind_eq_ok.mp valid
  obtain ⟨_, checked, _⟩ := bind_eq_ok.mp rest
  unfold checkFixed at checked
  cases fixed : settings.bounds.fixed with
  | some box => exact ⟨box, rfl⟩
  | none =>
    rw [fixed] at checked
    simp only [if_pos source] at checked
    cases checked

private theorem holds_file (boxless : settings.bounds.fixed = none)
    (small : ∀ precision ∈ settings.precision, precision < Json.wordLimit) :
    settings.Holds ⟨[(["a.json"], some (settings.write .json))], [], [], [], [], [], [], "", ""⟩ "a.json" := by
  refine ⟨settings.write .json, .json, Memory.read_write (write_file _), formatOf?_file, ?_⟩
  have faithful : settings.ReadsBack := fun box set => nomatch boxless.symm.trans set
  rw [read?_write_json small faithful, isFinite, boxless]
  rfl

end Settings

namespace Arguments

/-- The settings before any argument takes its place: those in the file that is asked for, or else those in the file of
the user, or else the standard ones. -/
inductive StartsFrom (arguments : Arguments) (memory : Memory) : Settings → Prop where
  | asked {path : String} {found : Settings} (config : arguments.config = some path) (holds : found.Holds memory path) :
      StartsFrom arguments memory found
  | user {path : String} {found : Settings} (config : arguments.config = none) (known : memory.userFile? = some path)
      (there : memory.holdsFile path = true) (holds : found.Holds memory path) : StartsFrom arguments memory found
  | standard (config : arguments.config = none)
      (absent : ∀ path, memory.userFile? = some path → memory.holdsFile path = false) :
      StartsFrom arguments memory .standard

/-- Settings that differ only in what the arguments are given for. -/
structure Agree (arguments : Arguments) (first second : Settings) : Prop where
  source : arguments.bounds = none → first.bounds.source = second.bounds.source
  program : arguments.inkscape = none → first.bounds.program = second.bounds.program
  orientation : first.bounds.orientation = second.bounds.orientation
  fixed : first.bounds.fixed = second.bounds.fixed
  precision : arguments.precision = none → first.precision = second.precision
  format : arguments.logFormat = none → first.logging.format = second.logging.format
  level : first.logging.level = second.logging.level

/-- Settings with the values of the arguments; the others are what was found. -/
structure Applies (arguments : Arguments) (found chosen : Settings) : Prop where
  source : ∀ source ∈ arguments.bounds, chosen.bounds.source = source
  program : ∀ program ∈ arguments.inkscape, chosen.bounds.program = program
  precision : ∀ precision ∈ arguments.precision, chosen.precision = some precision
  format : ∀ format ∈ arguments.logFormat, chosen.logging.format = format
  kept : arguments.Agree found chosen

/-- How a file that cannot be used is reported. -/
def refusal (arguments : Arguments) (error : SettingsError) : Failure :=
  match arguments.config with
  | some path => .config path error
  | none => .settings error

/-- The settings that are loaded before the arguments are looked at. -/
def loadFirst (arguments : Arguments) : StateM Memory (Except SettingsError Settings) :=
  match arguments.config with
  | some path => Settings.load path
  | none => Settings.loadUser

/-- The settings of a run. -/
def settingsIn (arguments : Arguments) (memory : Memory) : Except Failure Settings :=
  (memory.perform arguments.loadSettings).1

variable {arguments : Arguments} {memory : Memory} {first second found chosen : Settings}

private theorem getD_eq_iff {β : Type} {given : Option β} {found chosen : β} :
    given.getD found = chosen ↔ (∀ value ∈ given, chosen = value) ∧ (given = none → found = chosen) := by
  cases given <;> simp [eq_comm]

private theorem or_eq_iff {β : Type} {given found chosen : Option β} :
    given.or found = chosen ↔ (∀ value ∈ given, chosen = some value) ∧ (given = none → found = chosen) := by
  cases given <;> simp [eq_comm]

private theorem override_eq_iff : arguments.override found = chosen ↔ arguments.Applies found chosen := by
  obtain ⟨⟨source, program, orientation, fixed⟩, precision, ⟨format, level⟩⟩ := chosen
  simp only [override, Settings.mk.injEq, BoundsSettings.mk.injEq, LogSettings.mk.injEq, getD_eq_iff, or_eq_iff]
  constructor
  · intro same
    obtain ⟨⟨source, program, orientation, fixed⟩, precision, format, level⟩ := same
    exact ⟨source.1, program.1, precision.1, format.1, source.2, program.2, orientation, fixed, precision.2, format.2, level⟩
  · intro applies
    obtain ⟨source, program, precision, format, kept⟩ := applies
    exact ⟨⟨⟨source, kept.source⟩, ⟨program, kept.program⟩, kept.orientation, kept.fixed⟩, ⟨precision, kept.precision⟩,
      ⟨format, kept.format⟩, kept.level⟩

theorem Applies.of_agree (applies : arguments.Applies first chosen) (agree : arguments.Agree first second) :
    arguments.Applies second chosen := by
  obtain ⟨source, program, precision, format, kept⟩ := applies
  refine ⟨source, program, precision, format, ?_⟩
  constructor
  · intro absent
    exact (agree.source absent).symm.trans (kept.source absent)
  · intro absent
    exact (agree.program absent).symm.trans (kept.program absent)
  · exact agree.orientation.symm.trans kept.orientation
  · exact agree.fixed.symm.trans kept.fixed
  · intro absent
    exact (agree.precision absent).symm.trans (kept.precision absent)
  · intro absent
    exact (agree.format absent).symm.trans (kept.format absent)
  · exact agree.level.symm.trans kept.level

/-- What the arguments are given for does not matter in what was found. -/
theorem override_congr (agree : arguments.Agree first second) : arguments.override first = arguments.override second := by
  have applies : arguments.Applies first (arguments.override first) := override_eq_iff.mp rfl
  exact (override_eq_iff.mpr (applies.of_agree agree)).symm

private theorem overrideChecked_eq_ok :
    arguments.overrideChecked found = .ok chosen ↔ arguments.Applies found chosen ∧ chosen.validate = .ok () := by
  rw [← override_eq_iff, ← Settings.checked_eq_ok, overrideChecked]
  cases (arguments.override found).checked <;> simp

private theorem loadFirst_of_startsFrom (starts : arguments.StartsFrom memory found) :
    memory.perform arguments.loadFirst = (found.checked, memory) := by
  cases starts with
  | asked config holds =>
    rw [loadFirst, config]
    exact holds.load
  | user config known there holds =>
    rw [loadFirst, config, Settings.perform_loadUser, known]
    simp only [if_pos there]
    exact holds.load
  | standard config absent =>
    have standard : Settings.checked .standard = .ok .standard := Settings.checked_eq_ok.mpr ⟨rfl, by decide +kernel⟩
    rw [loadFirst, config, Settings.perform_loadUser, standard]
    cases known : memory.userFile? with
    | none => rfl
    | some path =>
      simp only [absent path known]
      rfl

private theorem startsFrom_of_loadFirst (loaded : (memory.perform arguments.loadFirst).1 = .ok found) :
    arguments.StartsFrom memory found := by
  cases config : arguments.config with
  | some path =>
    rw [loadFirst, config] at loaded
    exact .asked config (Settings.holds_of_load loaded)
  | none =>
    rw [loadFirst, config, Settings.perform_loadUser] at loaded
    cases known : memory.userFile? with
    | none =>
      rw [known] at loaded
      cases loaded
      exact .standard config fun path present => nomatch known.symm.trans present
    | some path =>
      rw [known] at loaded
      cases there : memory.holdsFile path with
      | true =>
        simp only [if_pos there] at loaded
        exact .user config known there (Settings.holds_of_load loaded)
      | false =>
        simp only [there] at loaded
        cases loaded
        exact .standard config fun other present => Option.some.inj (known.symm.trans present) ▸ there

private theorem settingsIn_eq (arguments : Arguments) (memory : Memory) : arguments.settingsIn memory =
    match (memory.perform arguments.loadFirst).1 with
    | .error error => .error (arguments.refusal error)
    | .ok found => arguments.overrideChecked found := by
  unfold settingsIn loadSettings loadFirst refusal
  cases arguments.config with
  | some path =>
    simp only [Memory.perform_bind]
    cases (memory.perform (Settings.load path)).1 <;> rfl
  | none =>
    simp only [Memory.perform_bind]
    cases (memory.perform Settings.loadUser).1 <;> rfl

private theorem settingsIn_of_startsFrom (starts : arguments.StartsFrom memory found)
    (valid : found.validate = .ok ()) : arguments.settingsIn memory = arguments.overrideChecked found := by
  have loaded := loadFirst_of_startsFrom starts
  rw [Settings.checked_eq_ok.mpr ⟨rfl, valid⟩] at loaded
  rw [settingsIn_eq, loaded]

private theorem settingsIn_of_invalid {fault : SettingFault} (starts : arguments.StartsFrom memory found)
    (invalid : found.validate = .error fault) :
    arguments.settingsIn memory = .error (arguments.refusal (.invalid fault)) := by
  have loaded := loadFirst_of_startsFrom starts
  rw [Settings.checked_of_invalid invalid] at loaded
  rw [settingsIn_eq, loaded]

private theorem settingsIn_eq_ok :
    arguments.settingsIn memory = .ok chosen ↔ ∃ found, arguments.StartsFrom memory found ∧
    found.validate = .ok () ∧ arguments.Applies found chosen ∧ chosen.validate = .ok () := by
  constructor
  · intro settled
    rw [settingsIn_eq] at settled
    split at settled
    · cases settled
    · next found loaded =>
      have starts := startsFrom_of_loadFirst loaded
      rw [loadFirst_of_startsFrom starts] at loaded
      exact ⟨found, starts, (Settings.checked_eq_ok.mp loaded).2, overrideChecked_eq_ok.mp settled⟩
  · intro settled
    obtain ⟨found, starts, valid, applied⟩ := settled
    rw [settingsIn_of_startsFrom starts valid]
    exact overrideChecked_eq_ok.mpr applied

private theorem exists_measure {m : Type → Type} [Monad m] [Host m] (arguments : Arguments)
    (valid : chosen.validate = .ok ()) : ∃ measure : Measure m Float, arguments.measure chosen = .ok measure := by
  unfold measure
  cases source : chosen.bounds.source with
  | geometry => exact ⟨_, rfl⟩
  | inkscape => exact ⟨_, rfl⟩
  | fixed =>
    obtain ⟨box, fixed⟩ := Settings.fixed_of_validate valid source
    rw [fixed]
    exact ⟨_, rfl⟩

/-- Arguments take precedence over a file that passes its check. One that does not is refused, even where the arguments
would mend it. What is taken has the values of the arguments and passes the check once more, so no fixed box is missing. -/
theorem loadSettings_overrides (arguments : Arguments) :
    (∀ memory other found changed, arguments.StartsFrom memory found → arguments.StartsFrom other changed →
      found.validate = .ok () → changed.validate = .ok () → arguments.Agree found changed →
        arguments.settingsIn memory = arguments.settingsIn other) ∧
    (∀ memory found fault, arguments.StartsFrom memory found → found.validate = .error fault →
      arguments.settingsIn memory = .error (arguments.refusal (.invalid fault))) ∧
    ∀ memory chosen, (arguments.settingsIn memory = .ok chosen ↔ ∃ found, arguments.StartsFrom memory found ∧
        found.validate = .ok () ∧ arguments.Applies found chosen ∧ chosen.validate = .ok ()) ∧
      (arguments.settingsIn memory = .ok chosen →
        ∃ measure, arguments.measure (m := StateM Memory) chosen = .ok measure) := by
  refine ⟨?_, ?_, ?_⟩
  · intro memory other found changed starts restarts valid passed agree
    rw [settingsIn_of_startsFrom starts valid, settingsIn_of_startsFrom restarts passed, overrideChecked, overrideChecked,
      override_congr agree]
  · intro memory found fault starts invalid
    exact settingsIn_of_invalid starts invalid
  · intro memory chosen
    refine ⟨settingsIn_eq_ok, ?_⟩
    intro settled
    obtain ⟨_, _, _, _, valid⟩ := settingsIn_eq_ok.mp settled
    exact arguments.exists_measure valid

/-- A fixed source without its box is no mistake of the arguments, so it stays one when they ask for another source. -/
theorem loadSettings_overrides_source :
    let arguments : Arguments := ⟨[], some "a.json", some .geometry, none, some 3, none, none, "a.svg"⟩
    let settings (source : BoundsSource) (precision : Nat) : Settings :=
      ⟨⟨source, "ink", .topDown, none⟩, some precision, .standard⟩
    let memory (settings : Settings) : Memory := ⟨[(["a.json"], some (settings.write .json))], [], [], [], [], [], [], "", ""⟩
    arguments.settingsIn (memory (settings .inkscape 2)) = .ok (settings .geometry 3) ∧
      arguments.settingsIn (memory (settings .inkscape 2)) = arguments.settingsIn (memory (settings .geometry 7)) ∧
      (∃ measure, arguments.measure (m := StateM Memory) (settings .geometry 3) = .ok measure) ∧
      arguments.settingsIn (memory (settings .fixed 2)) =
        .error (.config "a.json" (.invalid ⟨"bounds.fixed", "required when bounds.source is \x27fixed\x27"⟩)) := by
  intro arguments settings memory
  have starts (source : BoundsSource) (precision : Nat) (small : precision < Json.wordLimit) :
      arguments.StartsFrom (memory (settings source precision)) (settings source precision) :=
    .asked rfl (Settings.holds_file rfl fun _ same => Option.some.inj same ▸ small)
  obtain ⟨same, refused, taken⟩ := loadSettings_overrides arguments
  have inkscape := starts .inkscape 2 (by decide)
  have settled : arguments.settingsIn (memory (settings .inkscape 2)) = .ok (settings .geometry 3) :=
    (taken _ _).1.mpr ⟨_, inkscape, by decide +kernel, override_eq_iff.mp rfl, by decide +kernel⟩
  refine ⟨settled, ?_, (taken _ _).2 settled, refused _ _ _ (starts .fixed 2 (by decide)) (by decide +kernel)⟩
  exact same _ _ _ _ inkscape (starts .geometry 7 (by decide)) (by decide +kernel) (by decide +kernel)
    ⟨nofun, fun _ => rfl, rfl, rfl, nofun, fun _ => rfl, rfl⟩

/-- So files that differ only in what the arguments are given for do not all lead to the same. -/
theorem not_forall_loadSettings_agree : ¬∀ (arguments : Arguments) (memory other : Memory) (found changed : Settings),
    arguments.StartsFrom memory found → arguments.StartsFrom other changed → arguments.Agree found changed →
      ∀ chosen, arguments.settingsIn memory = .ok chosen ↔ arguments.settingsIn other = .ok chosen := by
  intro all
  let arguments : Arguments := ⟨[], some "a.json", some .geometry, none, none, none, none, "a.svg"⟩
  let settings (source : BoundsSource) : Settings := ⟨⟨source, "inkscape", .bottomUp, none⟩, none, .standard⟩
  have starts (source : BoundsSource) : arguments.StartsFrom _ (settings source) :=
    .asked rfl (Settings.holds_file rfl nofun)
  have agree : arguments.Agree (settings .geometry) (settings .fixed) :=
    ⟨nofun, fun _ => rfl, rfl, rfl, fun _ => rfl, fun _ => rfl, rfl⟩
  have settled : arguments.settingsIn _ = .ok (settings .geometry) :=
    settingsIn_eq_ok.mpr ⟨_, starts .geometry, by decide +kernel, override_eq_iff.mp rfl, by decide +kernel⟩
  have invalid : (settings .fixed).validate =
      .error ⟨"bounds.fixed", "required when bounds.source is \x27fixed\x27"⟩ := by decide +kernel
  rw [all arguments _ _ _ _ (starts .geometry) (starts .fixed) agree, settingsIn_of_invalid (starts .fixed) invalid] at settled
  cases settled

end Arguments
end EnvelopeWarp
