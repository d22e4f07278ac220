import EnvelopeWarp.Proofs.IndexedDrawings
import EnvelopeWarp.Proofs.RepeatedEdits

/-! Drawings that are written and read again between calls. The edits before are written down and those after are made
to the text they stand in, and what is written in the end is what would have been written of the drawing that was never
read again. Only a second mark of the byte order at the front of a source is lost earlier. -/

namespace EnvelopeWarp

namespace Event

end Event

namespace Drawing

theorem InStep.reloaded {drawing : Drawing} (inStep : drawing.InStep) (text : String) : (drawing.reloaded text).InStep :=
  ⟨inStep.located, inStep.places, .nil, fun _ member => nomatch member⟩

/-- So not every drawing can be read again, for one with quotes in the names of attributes that are written anew cannot;
and not every one that can is written in the end as if it had not been, for one mark of the byte order of two is lost. -/
theorem not_forall_reloaded :
    (¬∀ (source : String) (drawing : Drawing) (calls : List (String × String)), parse source = .ok drawing →
      ∃ saved again, (drawing.afterCalls calls).render = .ok saved ∧ parse saved = .ok again) ∧
    ¬∀ (source saved once twice : String) (drawing again : Drawing) (earlier later : List (String × String)),
      parse source = .ok drawing → (drawing.afterCalls earlier).render = .ok saved → parse saved = .ok again →
        (drawing.afterCalls (earlier ++ later)).render = .ok once → (again.afterCalls later).render = .ok twice →
          twice = once := by
  constructor
  · intro readable
    let drawing : Drawing :=
      ⟨"<svg><path id='a' x\x22='\x22' y\x27=''/></svg>", [⟨"a", "path", 1, none⟩], [("a", 0)], none, none, []⟩
    have parsed : parse drawing.source = .ok drawing := by decide +kernel
    have rendered : (drawing.afterCalls [("a", "x")]).render =
        .ok "<svg><path id=\x22a\x22 x\x22=\x22&quot;\x22 y\x27=\x22\x22 d=\x22x\x22/></svg>" := by decide +kernel
    obtain ⟨saved, again, saving, reread⟩ := readable _ drawing [("a", "x")] parsed
    rw [rendered] at saving
    cases saving
    have refused : parse "<svg><path id=\x22a\x22 x\x22=\x22&quot;\x22 y\x27=\x22\x22 d=\x22x\x22/></svg>" =
        .error (.markup .openTag) := by decide +kernel
    rw [refused] at reread
    cases reread
  · intro invisible
    let positions := [("a", 0), ("b", 1)]
    let drawing : Drawing := ⟨"\ufeff\ufeff<svg><path id='a'/><path id='b'/></svg>",
      [⟨"a", "path", 1, none⟩, ⟨"b", "path", 2, none⟩], positions, none, none, []⟩
    let again : Drawing := ⟨"\ufeff<svg><path id=\x22a\x22 d=\x22x\x22/><path id='b'/></svg>",
      [⟨"a", "path", 1, some "x"⟩, ⟨"b", "path", 2, none⟩], positions, none, none, []⟩
    have same := invisible drawing.source again.source
      "\ufeff<svg><path id=\x22a\x22 d=\x22x\x22/><path id=\x22b\x22 d=\x22y\x22/></svg>"
      "<svg><path id=\x22a\x22 d=\x22x\x22/><path id=\x22b\x22 d=\x22y\x22/></svg>"
      drawing again [("a", "x")] [("b", "y")] (by decide +kernel) (by decide +kernel) (by decide +kernel)
      (by decide +kernel) (by decide +kernel)
    revert same
    decide

end Drawing
end EnvelopeWarp
