import EnvelopeWarp.Proofs.MeetingChords

/-! Triangles as envelopes. When one edge of a quadrilateral has shrunk to a point, the chords that run along it shrink
towards this apex, and their cross product with the chords from the apex shrinks by the same factor. So they can be told
apart up to the apex itself, where the chord is a point and stands for its own image. -/

namespace EnvelopeWarp
open Set

inductive Side where
  | top
  | right
  | bottom
  | left
deriving DecidableEq

namespace Side

def opposite : Side → Side
  | top => bottom
  | right => left
  | bottom => top
  | left => right

/-- One of the two sides that are next to a side; the other one is opposite. -/
def beside : Side → Side
  | top | bottom => left
  | right | left => top

/-- The ratios of the place at some part of the way along a side. -/
def place (part : ℝ) : Side → ℝ × ℝ
  | top => (part, 0)
  | right => (1, part)
  | bottom => (part, 1)
  | left => (0, part)

/-- How far a place is from a side, as a part of the way to the opposite one. -/
noncomputable def depth (u v : ℝ) : Side → ℝ
  | top => v
  | right => 1 - u
  | bottom => 1 - v
  | left => u

variable {u v : ℝ} (side : Side)

private theorem place_mem {part : ℝ} (within : part ∈ Icc (0 : ℝ) 1) :
    (side.place part).1 ∈ Icc (0 : ℝ) 1 ∧ (side.place part).2 ∈ Icc (0 : ℝ) 1 := by
  cases side <;> simpa [place] using within

private theorem depth_nonneg (across : u ∈ Icc (0 : ℝ) 1) (along : v ∈ Icc (0 : ℝ) 1) : 0 ≤ side.depth u v := by
  cases side with
  | top => exact along.1
  | right => exact sub_nonneg.mpr across.2
  | bottom => exact sub_nonneg.mpr along.2
  | left => exact across.1

end Side

/-- Twice the area of the triangle over a segment. -/
noncomputable def Segment.twiceArea (base : Segment ℝ) (apex : Point ℝ) : ℝ :=
  |base.cross ⟨base.start, apex⟩|

namespace Quad

def edge (quad : Quad ℝ) : Side → Segment ℝ
  | .top => quad.top
  | .right => quad.right
  | .bottom => quad.bottom
  | .left => quad.left

private theorem edge_pointAt (quad : Quad ℝ) (side : Side) (part : ℝ) :
    (quad.edge side).pointAt part = quad.blend (side.place part).1 (side.place part).2 := by
  cases side
  all_goals
    simp only [edge, top, right, bottom, left, Side.place, blend, Segment.pointAt, Segment.deltaX, Segment.deltaY,
      Point.mk.injEq]
    constructor <;> ring

/-- The longest product of lengths that a chord along a side and a chord from it can have. -/
noncomputable def reach (quad : Quad ℝ) (side : Side) : ℝ :=
  (quad.edge side.opposite).length * max (quad.edge side.beside).length (quad.edge side.beside.opposite).length

/-- One edge and no other is a point, and the triangle that remains is not flat: twice its area is more than the
tolerance for the edge opposite the apex and the longer one of the two others. -/
structure Triangle (quad : Quad ℝ) (collapsed : Side) : Prop where
  apex : ∀ side, (quad.edge side).start = (quad.edge side).finish ↔ side = collapsed
  clear : Scalar.epsilon * quad.reach collapsed < (quad.edge collapsed.opposite).twiceArea (quad.edge collapsed).start

namespace Triangle
variable {quad : Quad ℝ} {side : Side} {u v : ℝ}

private theorem lengths_le (triangle : quad.Triangle side) (across : u ∈ Icc (0 : ℝ) 1) (along : v ∈ Icc (0 : ℝ) 1) :
    (quad.row v).length * (quad.column u).length ≤ side.depth u v * quad.reach side := by
  have flat : (quad.edge side).length = 0 := Segment.length_eq_zero.mpr ((triangle.apex side).mpr rfl)
  have product : ∀ {a b m n k : ℝ}, a ≤ k * m → b ≤ n → 0 ≤ a → 0 ≤ n → a * b ≤ k * (m * n) := by
    intro a b m n k first second nonneg nonneg'
    calc a * b ≤ a * n := mul_le_mul_of_nonneg_left second nonneg
      _ ≤ k * m * n := mul_le_mul_of_nonneg_right first nonneg'
      _ = k * (m * n) := mul_assoc k m n
  have row := quad.row_length_le along
  have column := quad.column_length_le across
  have longestRow := quad.row_length_le_max along
  have longestColumn := quad.column_length_le_max across
  have rowNonneg := (quad.row v).length_nonneg
  have columnNonneg := (quad.column u).length_nonneg
  cases side with
  | top =>
    rw [show quad.top.length = 0 from flat, mul_zero, zero_add] at row
    exact product row longestColumn rowNonneg (columnNonneg.trans longestColumn)
  | bottom =>
    rw [show quad.bottom.length = 0 from flat, mul_zero, add_zero] at row
    exact product row longestColumn rowNonneg (columnNonneg.trans longestColumn)
  | left =>
    rw [show quad.left.length = 0 from flat, mul_zero, zero_add] at column
    rw [mul_comm]
    exact product column longestRow columnNonneg (rowNonneg.trans longestRow)
  | right =>
    rw [show quad.right.length = 0 from flat, mul_zero, add_zero] at column
    rw [mul_comm]
    exact product column longestRow columnNonneg (rowNonneg.trans longestRow)

private theorem abs_cross (triangle : quad.Triangle side) (across : u ∈ Icc (0 : ℝ) 1) (along : v ∈ Icc (0 : ℝ) 1) :
    |(quad.row v).cross (quad.column u)| =
      side.depth u v * (quad.edge side.opposite).twiceArea (quad.edge side).start := by
  have point : (quad.edge side).start = (quad.edge side).finish := (triangle.apex side).mpr rfl
  rw [Segment.twiceArea, ← abs_of_nonneg (side.depth_nonneg across along), ← abs_mul, abs_eq_abs]
  obtain ⟨first, second, third, fourth⟩ := quad
  simp only [row, column, blend, Segment.cross, Segment.deltaX, Segment.deltaY]
  cases side with
  | top =>
    obtain rfl : first = second := point
    right
    simp only [edge, Side.opposite, Side.depth, top, bottom]
    ring
  | bottom =>
    obtain rfl : fourth = third := point
    left
    simp only [edge, Side.opposite, Side.depth, top, bottom]
    ring
  | left =>
    obtain rfl : first = fourth := point
    left
    simp only [edge, Side.opposite, Side.depth, Quad.left, Quad.right]
    ring
  | right =>
    obtain rfl : second = third := point
    right
    simp only [edge, Side.opposite, Side.depth, Quad.left, Quad.right]
    ring

private theorem meets (triangle : quad.Triangle side) : quad.Meets := fun _ across _ along =>
  Segment.apart_of_area (side.depth_nonneg across along) (triangle.lengths_le across along)
    (triangle.abs_cross across along) triangle.clear

end Triangle
end Quad

namespace Warp
variable {source : Box ℝ} {target : Quad ℝ} {warp : Warp ℝ} {side : Side}

/-- The sides of the box go to the edges of the quadrilateral, part by part. -/
theorem apply_side_of_meets (made : ofBox source target = .ok warp) (wide : 0 < source.width) (high : 0 < source.height)
    (meets : target.Meets) {part : ℝ} (within : part ∈ Icc (0 : ℝ) 1) :
    warp.apply ((source.quad.edge side).pointAt part) = .ok ((target.edge side).pointAt part) := by
  obtain ⟨across, along⟩ := side.place_mem within
  rw [Quad.edge_pointAt, Quad.edge_pointAt]
  exact apply_place_of_meets made wide high meets across along

/-- Over a triangle every point of a closed box has an image, the side of the edge that has shrunk goes to the apex, and
the corners go to the corners. -/
theorem apply_triangle (wide : 0 < source.width) (high : 0 < source.height) (triangle : target.Triangle side) :
    ∃ warp, ofBox source target = .ok warp ∧ (∀ p, source.Contains p → ∃ r, warp.apply p = .ok r) ∧
      (∀ part ∈ Icc (0 : ℝ) 1, warp.apply ((source.quad.edge side).pointAt part) = .ok (target.edge side).start) ∧
      List.Forall₂ (fun corner image => warp.apply corner = .ok image) source.quad.corners target.corners := by
  have made : ofBox source target = .ok ⟨source, target⟩ := ofBox_eq_ok.mpr ⟨wide.ne', high.ne', rfl⟩
  refine ⟨_, made, ?_, ?_, ?_⟩
  · exact fun p inside => exists_apply_of_meets made wide high triangle.meets inside
  · intro part within
    have flat : (target.edge side).length = 0 := Segment.length_eq_zero.mpr ((triangle.apex side).mpr rfl)
    rw [apply_side_of_meets made wide high triangle.meets within, Segment.pointAt_of_flat flat]
  · have least : (0 : ℝ) ∈ Icc (0 : ℝ) 1 := ⟨le_rfl, zero_le_one⟩
    have most : (1 : ℝ) ∈ Icc (0 : ℝ) 1 := ⟨zero_le_one, le_rfl⟩
    rw [Quad.corners_eq_blends, Quad.corners_eq_blends]
    refine .cons ?_ (.cons ?_ (.cons ?_ (.cons ?_ .nil)))
    · exact apply_place_of_meets made wide high triangle.meets least least
    · exact apply_place_of_meets made wide high triangle.meets most least
    · exact apply_place_of_meets made wide high triangle.meets most most
    · exact apply_place_of_meets made wide high triangle.meets least most

/-- An apex on the left: the middle of the left side goes there. -/
theorem apply_triangle_left :
    let source : Box ℝ := ⟨1, 2, 10, 10⟩
    let target : Quad ℝ := ⟨⟨0, 3⟩, ⟨4, 0⟩, ⟨4, 6⟩, ⟨0, 3⟩⟩
    target.Triangle .left ∧ ∃ warp, ofBox source target = .ok warp ∧ warp.apply ⟨1, 7⟩ = .ok ⟨0, 3⟩ := by
  intro source target
  have triangle : target.Triangle .left := by
    constructor
    · intro side
      cases side <;> simp [target, Quad.edge, Quad.top, Quad.right, Quad.bottom, Quad.left]
    · norm_num [target, Quad.reach, Quad.edge, Side.opposite, Side.beside, Quad.top, Quad.right, Quad.bottom, Quad.left,
        Segment.twiceArea, Segment.cross, Segment.deltaX, Segment.deltaY, Segment.length]
  obtain ⟨warp, made, _, shrunk, _⟩ :=
    apply_triangle (by norm_num [source] : 0 < source.width) (by norm_num [source] : 0 < source.height) triangle
  refine ⟨triangle, warp, made, ?_⟩
  have middle : (source.quad.edge .left).pointAt (1 / 2) = ⟨1, 7⟩ := by
    norm_num [source, Box.quad, Quad.edge, Quad.left, Segment.pointAt, Segment.deltaX, Segment.deltaY]
  rw [← middle]
  exact shrunk (1 / 2) ⟨by norm_num, by norm_num⟩

end Warp
end EnvelopeWarp
