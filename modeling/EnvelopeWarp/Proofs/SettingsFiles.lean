import EnvelopeWarp.Proofs.MemoryHost
import EnvelopeWarp.Proofs.SettingsText
import EnvelopeWarp.Settings.File

/-! Settings that were saved are loaded from the file that was written, where the text of the file can hold them. -/

namespace EnvelopeWarp
namespace Settings

section Files
variable {settings found : Settings} {path text : String} {memory after : Memory}

theorem checked_eq_ok : settings.checked = .ok found ↔ settings = found ∧ found.validate = .ok () := by
  unfold checked
  cases valid : settings.validate with
  | ok _ =>
    constructor
    · intro same
      cases same
      exact ⟨rfl, valid⟩
    · intro both
      rw [both.1]
  | error fault =>
    constructor
    · intro same
      cases same
    · intro both
      obtain ⟨rfl, passed⟩ := both
      rw [valid] at passed
      cases passed

theorem perform_load (read : memory.read path = .ok text) : memory.perform (load path) = (ofFile path text, memory) := by
  simp only [load, Memory.perform_bind, Memory.perform_readText, read, Memory.perform_pure]

private theorem toFile_eq_ok (written : settings.toFile path = .ok text) : settings.validate = .ok () ∧
    ∃ format, formatOf? path = some format ∧ text = settings.write format := by
  obtain ⟨other, passed, rest⟩ := bind_eq_ok.mp written
  obtain ⟨rfl, valid⟩ := checked_eq_ok.mp passed
  refine ⟨valid, ?_⟩
  split at rest
  · cases rest
  · next format known =>
    cases rest
    exact ⟨format, known, rfl⟩

/-- What a file is to hold is read as the settings that were given, unless it is structured text and one of their
numbers has no notation there. -/
theorem ofFile_toFile (written : settings.toFile path = .ok text)
    (faithful : formatOf? path = some .json → settings.ReadsBack) :
    ∃ format, formatOf? path = some format ∧ ofFile path text =
      if format = .json ∧ settings.isFinite = false then .error (.malformed .json) else .ok settings := by
  obtain ⟨valid, format, known, rfl⟩ := toFile_eq_ok written
  refine ⟨format, known, ?_⟩
  have back := read?_write valid fun same => faithful (known.trans (congrArg some same))
  unfold ofFile
  rw [known]
  by_cases lost : format = .json ∧ settings.isFinite = false
  · rw [if_pos lost] at back ⊢
    obtain ⟨rfl, _⟩ := lost
    simp only [back]
  · rw [if_neg lost] at back ⊢
    simp only [back, checked, valid]

/-- After settings were saved, the file is loaded with the text that was written. -/
theorem load_of_save (saved : memory.perform (settings.save path) = (.ok (), after)) :
    ∃ text, settings.toFile path = .ok text ∧ after.perform (load path) = (ofFile path text, after) := by
  unfold save at saved
  split at saved
  · cases saved
  · next text written =>
    refine ⟨text, written, ?_⟩
    simp only [Memory.perform_bind] at saved
    split at saved
    · cases saved
    · simp only [Memory.perform_bind, Memory.perform_writeText] at saved
      split at saved
      · cases saved
      · next stored =>
        have read : after.read path = .ok text := by
          rw [← (Prod.mk.inj saved).2]
          exact Memory.read_write (Memory.attempt_eq_ok stored)
        exact perform_load read

end Files

private theorem names_file : FileName.names "a.json" = ["a.json"] := by
  have split : "a.json".splitOn "/" = ["a.json"] := by
    rw [String.splitOn, if_neg (by decide)]
    iterate 6 rw [String.splitOnAux, if_neg (by decide), if_neg (by decide)]
    rw [String.splitOnAux, if_pos (by decide)]
    rfl
  rw [FileName.names, split]
  decide

theorem formatOf?_file : formatOf? "a.json" = some .json := by
  unfold formatOf? FileName.extension? FileName.parts
  rw [names_file]
  decide +kernel

theorem write_file (text : String) : (⟨[], [], [], [], [], [], [], "", ""⟩ : Memory).write "a.json" text =
    .ok ⟨[(["a.json"], some text)], [], [], [], [], [], [], "", ""⟩ := by
  have checked : Memory.checkPath "a.json" = .ok () := by
    rw [Memory.checkPath, if_neg (by simp), if_neg (by decide)]
    rfl
  have last : FileName.last? "a.json" = some "a.json" := by
    unfold FileName.last?
    rw [names_file]
    decide
  have open_ : "a.json".endsWith "/" = false := by decide +kernel
  have above : Memory.above ⟨[], [], [], [], [], [], [], "", ""⟩ "a.json" = .ok [] := by
    unfold Memory.above
    rw [checked, names_file]
    decide +kernel
  unfold Memory.write
  rw [above, last, open_]
  rfl

/-- Valid settings are saved where nothing stands in the way. -/
theorem save_file {settings : Settings} (valid : settings.validate = .ok ()) : ∃ after : Memory,
    (⟨[], [], [], [], [], [], [], "", ""⟩ : Memory).perform (settings.save "a.json") = (.ok (), after) := by
  have text : settings.toFile "a.json" = .ok (settings.write .json) := by
    unfold toFile checked
    rw [valid, formatOf?_file]
    rfl
  have parent : FileName.parent "a.json" = "" := by
    unfold FileName.parent FileName.parts
    rw [names_file]
    decide +kernel
  have top : FileName.names "" = [] := by
    have split : "".splitOn "/" = [""] := by
      rw [String.splitOn, if_neg (by decide), String.splitOnAux, if_pos (by decide)]
      rfl
    rw [FileName.names, split]
    decide
  let memory : Memory := ⟨[], [], [], [], [], [], [], "", ""⟩
  have made : memory.makeAll "" = .ok memory := by
    have checked : Memory.checkPath "" = .ok () := by
      rw [Memory.checkPath, if_neg (by simp), if_neg (by decide)]
      rfl
    unfold Memory.makeAll FileName.parts
    rw [checked, top]
    rfl
  refine ⟨⟨[(["a.json"], some (settings.write .json))], [], [], [], [], [], [], "", ""⟩, ?_⟩
  change memory.perform (settings.save "a.json") = _
  unfold save
  rw [text]
  simp only [Memory.perform_bind, Memory.perform_createDirectories, Memory.perform_writeText, Memory.perform_pure,
    Memory.attempt, parent, made, memory, write_file]

/-- Zero and one are read back from structured text. -/
theorem read?_text_zero_one {value : Float} (member : value ∈ [(0 : Float), 1]) :
    Json.read? (Layout.structured.text value) = some (.real value) := by
  have read {digit : Char} (isDigit : digit.isDigit = true) (text : Layout.structured.text value = [digit, '.', '0'])
      (same : Json.unsignedReal? ⟨none, [digit], some ['0'], none⟩ = some value) :
      Json.read? (Layout.structured.text value) = some (.real value) := by
    have sound : (⟨none, [digit], some ['0'], none⟩ : Literal).Sound := by
      refine ⟨nofun, List.forall_mem_singleton.mpr isDigit, ?_, List.cons_ne_nil _ _, nofun⟩
      rintro _ ⟨⟩ c zero
      rw [List.mem_singleton.mp zero]
      rfl
    have number : Json.isNumber ⟨none, [digit], some ['0'], none⟩ = true :=
      Json.isNumber_eq nofun (List.cons_ne_nil _ _) (fun _ => rfl) (by simp)
    have taken : Json.number ⟨none, [digit], some ['0'], none⟩ = .real value := Json.number_of_pointed rfl rfl same
    rw [text, ← taken]
    exact Json.read?_text sound number
  rcases List.mem_pair.mp member with rfl | rfl
  · exact @read '0' rfl (by decide +kernel) (by decide +kernel)
  · exact @read '1' rfl (by decide +kernel) (by decide +kernel)

/-- Settings that were saved are loaded as they were, unless the file holds structured text and one of their numbers
has no notation there: such a file is made and cannot be loaded. -/
theorem load_save {settings : Settings} {path : String} {memory after : Memory}
    (saved : memory.perform (settings.save path) = (.ok (), after))
    (faithful : formatOf? path = some .json → settings.ReadsBack) :
    ∃ format, formatOf? path = some format ∧ after.perform (load path) =
      (if format = .json ∧ settings.isFinite = false then .error (.malformed .json) else .ok settings, after) := by
  obtain ⟨text, written, loaded⟩ := load_of_save saved
  obtain ⟨format, known, read⟩ := ofFile_toFile written faithful
  exact ⟨format, known, by rw [loaded, read]⟩

theorem load_save_fixed_box :
    let settings : Settings :=
      ⟨⟨.fixed, "\x22\x5c\n\x01\u00e9", .topDown, some ⟨0, 0, 1, 1⟩⟩, some 3, .pretty, "a=\x27b\x27"⟩
    ∃ after : Memory, (⟨[], [], [], [], [], [], [], "", ""⟩ : Memory).perform (settings.save "a.json") = (.ok (), after) ∧
      after.perform (load "a.json") = (.ok settings, after) := by
  intro settings
  obtain ⟨after, saved⟩ := @save_file settings (by decide +kernel)
  have back : ∀ value ∈ Box.numbers ⟨0, 0, 1, 1⟩, Json.ReadsBack value := fun value member _ =>
    read?_text_zero_one (by simpa [Box.numbers] using member)
  obtain ⟨format, known, loaded⟩ := load_save saved fun _ box set value member =>
    back value (Option.some.inj set ▸ member)
  refine ⟨after, saved, loaded.trans ?_⟩
  have finite : settings.isFinite = true := by decide +kernel
  rw [if_neg fun lost => Bool.noConfusion (finite.symm.trans lost.2)]

/-- So not all settings that are saved can be loaded: with a box at infinity structured text is written and refused. -/
theorem not_forall_load_save : ¬∀ (settings : Settings) (path : String) (memory after : Memory),
    memory.perform (settings.save path) = (.ok (), after) → settings.ReadsBack →
      (after.perform (load path)).1 = .ok settings := by
  intro all
  let infinite : Float := Double.ofPattern false Double.infinity
  let settings : Settings := ⟨⟨.geometry, "inkscape", .bottomUp, some ⟨infinite, 0, 1, 1⟩⟩, none, .standard⟩
  have unbounded : infinite.isFinite = false := by decide +kernel
  have back : ∀ value ∈ Box.numbers ⟨infinite, 0, 1, 1⟩, Json.ReadsBack value := by
    intro value member finite
    have other : value ≠ infinite := fun same => Bool.noConfusion (unbounded.symm.trans (same ▸ finite))
    exact read?_text_zero_one (by simpa [Box.numbers, other] using member)
  have faithful : settings.ReadsBack :=
    fun box set value member => back value (Option.some.inj set ▸ member)
  obtain ⟨after, saved⟩ := @save_file settings (by decide +kernel)
  obtain ⟨text, written, loaded⟩ := load_of_save saved
  obtain ⟨format, known, read⟩ := ofFile_toFile written fun _ => faithful
  have lost : settings.isFinite = false := by decide +kernel
  obtain rfl := Option.some.inj (formatOf?_file.symm.trans known)
  rw [if_pos ⟨rfl, lost⟩] at read
  have same := all settings "a.json" _ after saved faithful
  rw [loaded, read] at same
  cases same

end Settings
end EnvelopeWarp
