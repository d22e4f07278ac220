import EnvelopeWarp.Proofs.ArcPieces

/-! Arcs that are drawn as straight lines. The handle of a piece lies on a tangent of the ellipse, so an arc that is drawn in
pieces leaves its start in a direction, which a straight line does not. An arc counts as a line when a radius is zero; with
radii that are not, it depends on the size of the drawing alone, since the cut-off is the same at every size. -/

namespace EnvelopeWarp
open Real (pi)

theorem Point.same_iff {p q : Point ℝ} : p.same q = true ↔ p = q := by
  obtain ⟨x, y⟩ := p
  obtain ⟨x', y'⟩ := q
  simp [Point.same]

namespace Ellipse
variable {e : Ellipse ℝ}

/-- A tangent meets the ellipse in one point. -/
theorem pointAt_tangent_ne (proper : e.Proper) {angle reach : ℝ} (some_way : reach ≠ 0) :
    Arc.Ellipse.pointAt e (Real.cos angle - reach * Real.sin angle) (Real.sin angle + reach * Real.cos angle) ≠
      e.atAngle angle := by
  intro same
  have seen := congrArg e.framed same
  rw [framed_pointAt proper, framed_atAngle proper, Point.mk.injEq] at seen
  have level : reach * Real.sin angle = 0 := by linarith [seen.1]
  have upright : reach * Real.cos angle = 0 := by linarith [seen.2]
  have unit := Real.sin_sq_add_cos_sq angle
  rw [(mul_eq_zero.mp level).resolve_left some_way, (mul_eq_zero.mp upright).resolve_left some_way] at unit
  norm_num at unit

end Ellipse

namespace Arc

private theorem tan_quarter_ne_zero {turn : ℝ} (turns : turn ≠ 0) (short : |turn| < 2 * pi) {count : Nat}
    (some_piece : 1 ≤ count) : Real.tan (turn / count / 4) ≠ 0 := by
  have many : (1 : ℝ) ≤ count := Nat.one_le_cast.mpr some_piece
  have step : |turn / count| < 2 * pi := by
    rw [abs_div, Nat.abs_cast]
    exact (div_le_self (abs_nonneg turn) many).trans_lt short
  obtain ⟨above, below⟩ := abs_lt.mp step
  have some_step : turn / count ≠ 0 := div_ne_zero turns (one_pos.trans_le many).ne'
  rcases lt_or_gt_of_ne some_step with back | ahead
  · exact (Real.tan_neg_of_neg_of_pi_div_two_lt (by linarith) (by linarith)).ne
  · exact (Real.tan_pos_of_pos_of_lt_pi_div_two (by linarith) (by linarith)).ne'

variable {start finish radii : Point ℝ} {rotation : ℝ} {large sweep : Bool}

/-- An arc that is drawn in pieces leaves its start. -/
theorem pieces?_of_not_flat (bent : ¬Flat start finish radii rotation) (large sweep : Bool) :
    ∃ first rest, pieces? start finish radii rotation large sweep = some (first :: rest) ∧ first.first ≠ start := by
  have swept := ((sweep?_cases start finish radii rotation large sweep).resolve_left fun flat => bent flat.1).2
  have joins := joins_sweepOf (curved_of_not_flat bent) large sweep
  generalize sweepOf start finish radii rotation large sweep = arc at swept joins
  have turns : arc.turn ≠ 0 := by
    have sense := joins.sense
    cases sweep
    · exact ne_of_lt sense
    · exact ne_of_gt sense
  let reach : ℝ := Scalar.four / Scalar.three * Scalar.tan (arc.turn / Scalar.ofNat (pieceCount arc.turn) / Scalar.four)
  have some_way : reach ≠ 0 := by
    simp only [reach, Scalar.four_eq, Scalar.three_eq, Scalar.tan_eq, Scalar.ofNat_eq]
    exact mul_ne_zero (by norm_num) (tan_quarter_ne_zero turns joins.short (one_le_pieceCount arc.turn))
  obtain ⟨second, stop, rest, drawn⟩ : ∃ second stop rest, Sweep.pieces arc finish = ⟨Ellipse.pointAt arc.ellipse
      (Real.cos arc.start - reach * Real.sin arc.start) (Real.sin arc.start + reach * Real.cos arc.start), second, stop⟩ ::
        rest := by
    obtain ⟨count, counted⟩ := Nat.exists_eq_add_of_le' (one_le_pieceCount arc.turn)
    simp only [Sweep.pieces, reach, counted]
    exact ⟨_, _, _, rfl⟩
  refine ⟨_, rest, by rw [pieces?, swept, Option.map_some, drawn], fun same => ?_⟩
  exact Ellipse.pointAt_tangent_ne joins.proper some_way (same.trans joins.starts.symm)

theorem flat_of_radius_zero (zero : radii.x = 0 ∨ radii.y = 0) : Flat start finish radii rotation := by
  rcases zero with narrow | narrow
  · exact .inl (by rw [narrow, abs_zero]; exact Scalar.epsilon_pos)
  · exact .inr (.inl (by rw [narrow, abs_zero]; exact Scalar.epsilon_pos))

section
variable {factor : ℝ} (positive : 0 < factor) (start finish radii : Point ℝ) (rotation : ℝ)

theorem chord_scale (factor : ℝ) : chord (start.scale factor) (finish.scale factor) rotation =
    (chord start finish rotation).scale factor := by
  simp only [chord, halfChord, Point.scale, Scalar.two_eq, Point.mk.injEq]
  constructor <;> ring

private theorem inUnits_scale (units p : Point ℝ) (some_factor : factor ≠ 0) :
    inUnits (units.scale factor) (p.scale factor) = inUnits units p := by
  simp only [inUnits, Point.scale, mul_div_mul_right _ _ some_factor]

private theorem spread_scale (units p : Point ℝ) (factor : ℝ) :
    spread (units.scale factor) (p.scale factor) = spread units p * factor ^ 4 := by
  simp only [spread, Point.scale]
  ring

include positive

private theorem stretch_scale : stretch (start.scale factor) (finish.scale factor) (radii.scale factor) rotation =
    stretch start finish radii rotation := by
  have given : (⟨|(radii.scale factor).x|, |(radii.scale factor).y|⟩ : Point ℝ) =
      Point.scale ⟨|radii.x|, |radii.y|⟩ factor := by
    simp only [Point.scale, abs_mul, abs_of_pos positive]
  rw [stretch, given, chord_scale, inUnits_scale _ _ positive.ne', stretch]

theorem drawnRadii_scale : drawnRadii (start.scale factor) (finish.scale factor) (radii.scale factor) rotation =
    (drawnRadii start finish radii rotation).scale factor := by
  rw [drawnRadii, stretch_scale positive]
  simp only [drawnRadii, Point.scale, abs_mul, abs_of_pos positive, mul_right_comm]

theorem half_scale : half (start.scale factor) (finish.scale factor) (radii.scale factor) rotation =
    half start finish radii rotation := by
  rw [half, drawnRadii_scale positive, chord_scale, inUnits_scale _ _ positive.ne', half]

/-- The cut-off compares lengths on the radii and fourth powers of lengths behind them. -/
theorem flat_scale_iff : Flat (start.scale factor) (finish.scale factor) (radii.scale factor) rotation ↔
    |radii.x| * factor < Scalar.epsilon ∨ |radii.y| * factor < Scalar.epsilon ∨
      spread (drawnRadii start finish radii rotation) (chord start finish rotation) * factor ^ 4 < Scalar.epsilon := by
  rw [Flat, drawnRadii_scale positive, chord_scale, spread_scale]
  simp only [Point.scale, abs_mul, abs_of_pos positive]

end

private theorem chord_ne_zero (apart : start ≠ finish) :
    (chord start finish rotation).x ≠ 0 ∨ (chord start finish rotation).y ≠ 0 := by
  by_contra none
  simp only [chord, halfChord, Scalar.two_eq, not_or, not_not] at none
  obtain ⟨along, across⟩ := none
  have unit := Real.cos_sq_add_sin_sq (Scalar.radians rotation)
  apply apart
  obtain ⟨x, y⟩ := start
  obtain ⟨x', y'⟩ := finish
  simp only [Point.mk.injEq] at along across ⊢
  constructor
  · linear_combination -(x - x') * unit + 2 * Real.cos (Scalar.radians rotation) * along -
      2 * Real.sin (Scalar.radians rotation) * across
  · linear_combination -(y - y') * unit + 2 * Real.sin (Scalar.radians rotation) * along +
      2 * Real.cos (Scalar.radians rotation) * across

private theorem spread_pos {units p : Point ℝ} (wide : 0 < units.x) (high : 0 < units.y)
    (some_way : p.x ≠ 0 ∨ p.y ≠ 0) : 0 < spread units p := by
  rcases some_way with along | across
  · exact add_pos_of_nonneg_of_pos (sq_nonneg _) (sq_pos_of_ne_zero (mul_ne_zero high.ne' along))
  · exact add_pos_of_pos_of_nonneg (sq_pos_of_ne_zero (mul_ne_zero wide.ne' across)) (sq_nonneg _)

/-- Every arc with radii that are not zero is a line when the drawing is small enough, and only then. -/
theorem exists_size (apart : start ≠ finish) (wide : radii.x ≠ 0) (high : radii.y ≠ 0) :
    ∃ size > 0, ∀ factor > 0,
      (Flat (start.scale factor) (finish.scale factor) (radii.scale factor) rotation ↔ factor < size) := by
  have stretched : 0 < stretch start finish radii rotation := one_pos.trans_le (one_le_stretch _ _ _ _)
  have x : 0 < |radii.x| := abs_pos.mpr wide
  have y : 0 < |radii.y| := abs_pos.mpr high
  have spreads : 0 < spread (drawnRadii start finish radii rotation) (chord start finish rotation) :=
    spread_pos (mul_pos x stretched) (mul_pos y stretched) (chord_ne_zero apart)
  let extent := spread (drawnRadii start finish radii rotation) (chord start finish rotation)
  let ε : ℝ := Scalar.epsilon
  have tolerance : 0 < ε := Scalar.epsilon_pos
  have fourth {factor : ℝ} (positive : 0 < factor) : extent * factor ^ 4 < ε ↔ factor < √√(ε / extent) := by
    rw [Real.lt_sqrt positive.le, Real.lt_sqrt (sq_nonneg factor), ← pow_mul, lt_div_iff₀' spreads]
  refine ⟨max (ε / |radii.x|) (max (ε / |radii.y|) √√(ε / extent)), lt_max_of_lt_left (div_pos tolerance x), ?_⟩
  intro factor positive
  rw [flat_scale_iff positive, lt_max_iff, lt_max_iff, lt_div_iff₀' x, lt_div_iff₀' y, ← fourth positive]

end Arc

namespace Pen

section
variable {α : Type} (pen : Pen α)

theorem resume_nodes : ∃ nodes, pen.resume.nodes = some nodes := by
  unfold resume
  cases drawing : pen.nodes with
  | none => exact ⟨[], rfl⟩
  | some nodes => exact ⟨nodes, drawing⟩

private theorem resume_kept : pen.resume.current = pen.current ∧ pen.resume.finished = pen.finished := by
  unfold resume
  split <;> exact ⟨rfl, rfl⟩

private theorem nodes_pieces {nodes : List (Node α)} (drawing : pen.nodes = some nodes) (pieces : List (ArcPiece α)) :
    ∃ more, (pieces.foldl drawPiece pen).nodes = some (nodes ++ more) ∧
      (pieces.foldl drawPiece pen).finished = pen.finished := by
  induction pieces generalizing pen nodes with
  | nil => exact ⟨[], by rw [List.append_nil]; exact drawing, rfl⟩
  | cons piece pieces ih =>
    have drawn : (drawPiece pen piece).nodes = some (nodes ++ [⟨pen.handle, pen.current, piece.first⟩]) := by
      simp [drawPiece, cubicTo, resume, leave, drawing]
    have finished : (drawPiece pen piece).finished = pen.finished := by
      simp [drawPiece, cubicTo, resume, leave, drawing]
    obtain ⟨more, rest, kept⟩ := ih _ drawn
    exact ⟨_ :: more, by rw [List.foldl_cons, rest, List.append_assoc]; rfl, kept.trans finished⟩

end

section
variable (pen : Pen ℝ) {p radii : Point ℝ} {rotation : ℝ}

theorem arcTo_of_flat (apart : pen.current ≠ p) (flat : Arc.Flat pen.current p radii rotation) (large sweep : Bool) :
    pen.arcTo radii rotation large sweep p = pen.lineTo p := by
  rcases Arc.sweep?_cases pen.current p radii rotation large sweep with ⟨_, straight⟩ | ⟨bent, _⟩
  · have no_pieces : Arc.pieces? pen.current p radii rotation large sweep = none := congrArg (Option.map _) straight
    rw [arcTo, if_neg fun same => apart (Point.same_iff.mp same), no_pieces]
    rfl
  · exact absurd flat bent

/-- The node at which an arc starts is a corner exactly when the arc counts as a line. -/
theorem arcTo_starts {before : List (Node ℝ)} (resumed : pen.resume.nodes = some before) (apart : pen.current ≠ p)
    (radii : Point ℝ) (rotation : ℝ) (large sweep : Bool) :
    ∃ outgoing more, (outgoing = pen.current ↔ Arc.Flat pen.current p radii rotation) ∧
      (pen.arcTo radii rotation large sweep p).nodes =
        some (before ++ [⟨pen.resume.handle, pen.current, outgoing⟩] ++ more) ∧
      (pen.arcTo radii rotation large sweep p).finished = pen.finished := by
  obtain ⟨standing, kept⟩ := pen.resume_kept
  by_cases flat : Arc.Flat pen.current p radii rotation
  · refine ⟨pen.current, [], iff_of_true rfl flat, ?_, ?_⟩ <;> rw [pen.arcTo_of_flat apart flat]
    · simp [lineTo, leave, resumed, standing]
    · exact kept
  · obtain ⟨piece, rest, drawn, aside⟩ := Arc.pieces?_of_not_flat flat large sweep
    have started : (pen.drawPiece piece).nodes = some (before ++ [⟨pen.resume.handle, pen.current, piece.first⟩]) := by
      simp [drawPiece, cubicTo, leave, resumed, standing]
    obtain ⟨more, nodes, finished⟩ := nodes_pieces _ started rest
    refine ⟨piece.first, more, iff_of_false aside flat, ?_, ?_⟩ <;>
      rw [arcTo, if_neg fun same => apart (Point.same_iff.mp same), drawn]
    · exact nodes
    · exact finished.trans kept

/-- An arc to another point draws what a line draws if it counts as one, and something else if not. -/
theorem arcTo_eq_lineTo_iff (apart : pen.current ≠ p) (large sweep : Bool) :
    pen.arcTo radii rotation large sweep p = pen.lineTo p ↔ Arc.Flat pen.current p radii rotation := by
  refine ⟨fun same => ?_, fun flat => pen.arcTo_of_flat apart flat large sweep⟩
  obtain ⟨before, resumed⟩ := pen.resume_nodes
  obtain ⟨outgoing, more, aside, nodes, _⟩ := pen.arcTo_starts resumed apart radii rotation large sweep
  have line : (pen.lineTo p).nodes = some (before ++ [⟨pen.resume.handle, pen.current, pen.current⟩]) := by
    simp [lineTo, leave, resumed, pen.resume_kept.1]
  rw [same, line, Option.some.injEq, List.append_assoc, List.append_cancel_left_eq, List.singleton_append, List.cons.injEq,
    Node.mk.injEq] at nodes
  exact aside.mp nodes.1.2.2.symm

end
end Pen
end EnvelopeWarp
