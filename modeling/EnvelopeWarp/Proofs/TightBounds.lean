import EnvelopeWarp.Proofs.CubicExtremes

/-! The bounds of a path are the smallest box around what it draws. An extent is tight around a set of
points when each of its four ends is the least or greatest coordinate that occurs, and covering a curve
adds the points of the curve to the set. Tight ends are unique, so the search for extreme values may be
left out wherever the ends of a curve are already tight. -/

namespace EnvelopeWarp
open Set

def Curve.pointAt (curve : Curve ℝ) (t : ℝ) : Point ℝ :=
  ⟨(1 - t) ^ 3 * curve.start.x + 3 * (1 - t) ^ 2 * t * curve.first.x +
      3 * (1 - t) * t ^ 2 * curve.second.x + t ^ 3 * curve.finish.x,
    (1 - t) ^ 3 * curve.start.y + 3 * (1 - t) ^ 2 * t * curve.first.y +
      3 * (1 - t) * t ^ 2 * curve.second.y + t ^ 3 * curve.finish.y⟩

/-- What a subpath draws: its first anchor, and the curves between consecutive nodes. -/
inductive Subpath.Draws (subpath : Subpath ℝ) : Point ℝ → Prop where
  | first {node : Node ℝ} (head : subpath.nodes[0]? = some node) : subpath.Draws node.anchor
  | curve {index : Nat} {a b : Node ℝ} {t : ℝ} (here : subpath.nodes[index]? = some a)
      (next : subpath.nodes[index + 1]? = some b) (start : 0 ≤ t) (finish : t ≤ 1) :
      subpath.Draws (Curve.pointAt ⟨a.anchor, a.outgoing, b.incoming, b.anchor⟩ t)

def Path.drawn (path : Path ℝ) : Set (Point ℝ) :=
  {p | ∃ subpath ∈ path.subpaths, subpath.Draws p}

def Box.Contains (box : Box ℝ) (p : Point ℝ) : Prop :=
  box.x ≤ p.x ∧ p.x ≤ box.x + box.width ∧ box.y ≤ p.y ∧ p.y ≤ box.y + box.height

/-- A box contains all of a drawing, and the drawing touches each of its four sides. -/
structure Box.Encloses (box : Box ℝ) (drawn : Set (Point ℝ)) : Prop where
  contains : ∀ p ∈ drawn, box.Contains p
  left : ∃ p ∈ drawn, p.x = box.x
  right : ∃ p ∈ drawn, p.x = box.x + box.width
  top : ∃ p ∈ drawn, p.y = box.y
  bottom : ∃ p ∈ drawn, p.y = box.y + box.height

theorem Box.Encloses.least {box other : Box ℝ} {drawn : Set (Point ℝ)} (encloses : box.Encloses drawn)
    (around : ∀ p ∈ drawn, other.Contains p) {p : Point ℝ} (inside : box.Contains p) : other.Contains p := by
  obtain ⟨left, leftDrawn, leftSide⟩ := encloses.left
  obtain ⟨right, rightDrawn, rightSide⟩ := encloses.right
  obtain ⟨top, topDrawn, topSide⟩ := encloses.top
  obtain ⟨bottom, bottomDrawn, bottomSide⟩ := encloses.bottom
  obtain ⟨fromLeft, toRight, fromTop, toBottom⟩ := inside
  refine ⟨?_, ?_, ?_, ?_⟩
  · exact (around left leftDrawn).1.trans (leftSide.le.trans fromLeft)
  · exact toRight.trans (rightSide.ge.trans (around right rightDrawn).2.1)
  · exact (around top topDrawn).2.2.1.trans (topSide.le.trans fromTop)
  · exact toBottom.trans (bottomSide.ge.trans (around bottom bottomDrawn).2.2.2)

def Curve.horizontal (curve : Curve ℝ) : Cubic ℝ :=
  ⟨curve.start.x, curve.first.x, curve.second.x, curve.finish.x⟩

def Curve.vertical (curve : Curve ℝ) : Cubic ℝ :=
  ⟨curve.start.y, curve.first.y, curve.second.y, curve.finish.y⟩

def Curve.trace (curve : Curve ℝ) : Set (Point ℝ) :=
  curve.pointAt '' Icc 0 1

theorem Curve.image_trace_x (curve : Curve ℝ) : Point.x '' curve.trace = curve.horizontal.eval '' Icc 0 1 := by
  rw [trace, image_image]
  exact image_congr fun t _ => (curve.horizontal.eval_eq t).symm

theorem Curve.image_trace_y (curve : Curve ℝ) : Point.y '' curve.trace = curve.vertical.eval '' Icc 0 1 := by
  rw [trace, image_image]
  exact image_congr fun t _ => (curve.vertical.eval_eq t).symm

theorem Curve.finish_mem_trace (curve : Curve ℝ) : curve.finish ∈ curve.trace :=
  ⟨1, by simp, by simp [pointAt]⟩

namespace Span

/-- The ends of a span are the least and the greatest of some numbers. -/
def Tight (span : Span ℝ) (values : Set ℝ) : Prop :=
  IsLeast values span.low ∧ IsGreatest values span.high

theorem Tight.unique {first second : Span ℝ} {values : Set ℝ} (one : first.Tight values)
    (other : second.Tight values) : first = second := by
  obtain ⟨low, high⟩ := first
  have lows : low = second.low := one.1.unique other.1
  have highs : high = second.high := one.2.unique other.2
  rw [lows, highs]

theorem tight_cover {span : Span ℝ} {values : Set ℝ} (tight : span.Tight values) (value : ℝ) :
    (span.cover value).Tight (insert value values) := by
  constructor
  · simpa only [cover, Scalar.min_eq, min_comm] using tight.1.insert value
  · simpa only [cover, Scalar.max_eq, max_comm] using tight.2.insert value

/-- Covering a cubic with the search for extreme values on both sides, whatever its control values. -/
noncomputable def searchCubic (span : Span ℝ) (c : Cubic ℝ) : Span ℝ :=
  ⟨Scalar.min (span.cover c.p3).low c.minimum, Scalar.max (span.cover c.p3).high c.maximum⟩

private theorem tight_searchCubic {span : Span ℝ} {values : Set ℝ} (tight : span.Tight values) (c : Cubic ℝ) :
    (span.searchCubic c).Tight (values ∪ c.eval '' Icc 0 1) := by
  have finish : c.p3 ∈ c.eval '' Icc 0 1 := ⟨1, by simp, c.eval_one⟩
  have same : insert c.p3 values ∪ c.eval '' Icc 0 1 = values ∪ c.eval '' Icc 0 1 := by
    rw [insert_union, insert_eq_of_mem (.inr finish)]
  rw [← same]
  constructor
  · simpa only [searchCubic, Scalar.min_eq] using (tight_cover tight c.p3).1.union c.minimum_isLeast
  · simpa only [searchCubic, Scalar.max_eq] using (tight_cover tight c.p3).2.union c.maximum_isGreatest

private theorem tight_level {span : Span ℝ} {values : Set ℝ} (tight : span.Tight values) {c : Cubic ℝ}
    (start : c.p0 ∈ values) (level : c.bulges = false) : (span.cover c.p3).Tight (values ∪ c.eval '' Icc 0 1) := by
  have covered := tight_cover tight c.p3
  have finish : c.p3 ∈ c.eval '' Icc 0 1 := ⟨1, by simp, c.eval_one⟩
  have more : insert c.p3 values ⊆ values ∪ c.eval '' Icc 0 1 :=
    insert_subset (.inr finish) subset_union_left
  have between : ∀ value ∈ c.eval '' Icc 0 1, value ∈ Icc (span.cover c.p3).low (span.cover c.p3).high := by
    rintro _ ⟨t, inside, rfl⟩
    obtain ⟨low, high⟩ := Cubic.eval_of_not_bulges level inside
    have first : c.p0 ∈ insert c.p3 values := .inr start
    have last : c.p3 ∈ insert c.p3 values := .inl rfl
    exact ⟨(le_min (covered.1.2 first) (covered.1.2 last)).trans low,
      high.trans (max_le (covered.2.2 first) (covered.2.2 last))⟩
  refine ⟨⟨more covered.1.1, ?_⟩, more covered.2.1, ?_⟩
  · rintro value (member | member)
    · exact covered.1.2 (.inr member)
    · exact (between value member).1
  · rintro value (member | member)
    · exact covered.2.2 (.inr member)
    · exact (between value member).2

private theorem tight_coverCubic {span : Span ℝ} {values : Set ℝ} (tight : span.Tight values) {c : Cubic ℝ}
    (start : c.p0 ∈ values) : (span.coverCubic c).Tight (values ∪ c.eval '' Icc 0 1) := by
  unfold coverCubic
  cases shape : c.bulges with
  | true => exact tight_searchCubic tight c
  | false => exact tight_level tight start shape

end Span

namespace Subpath

private theorem mem_curvesOf {nodes : List (Node ℝ)} {curve : Curve ℝ} : curve ∈ curvesOf nodes ↔
    ∃ index a b, nodes[index]? = some a ∧ nodes[index + 1]? = some b ∧
      curve = ⟨a.anchor, a.outgoing, b.incoming, b.anchor⟩ := by
  induction nodes with
  | nil => simp [curvesOf]
  | cons first rest ih =>
    cases rest with
    | nil => simp [curvesOf]
    | cons second rest =>
      rw [curvesOf, List.mem_cons, ih]
      constructor
      · rintro (rfl | ⟨index, a, b, here, next, same⟩)
        · exact ⟨0, first, second, rfl, rfl, rfl⟩
        · exact ⟨index + 1, a, b, here, next, same⟩
      · rintro ⟨index, a, b, here, next, same⟩
        cases index with
        | zero =>
          cases here
          cases next
          exact .inl same
        | succ index => exact .inr ⟨index, a, b, here, next, same⟩

private theorem draws_iff {subpath : Subpath ℝ} {first : Node ℝ} {rest : List (Node ℝ)}
    (shape : subpath.nodes = first :: rest) (p : Point ℝ) :
    subpath.Draws p ↔ p = first.anchor ∨ ∃ curve ∈ subpath.curves, p ∈ curve.trace := by
  constructor
  · intro drawn
    cases drawn with
    | first head =>
      rw [shape] at head
      cases head
      exact .inl rfl
    | curve here next start finish =>
      exact .inr ⟨_, mem_curvesOf.mpr ⟨_, _, _, here, next, rfl⟩, mem_image_of_mem _ ⟨start, finish⟩⟩
  · rintro (rfl | ⟨curve, member, t, ⟨start, finish⟩, rfl⟩)
    · exact .first (by rw [shape]; rfl)
    · obtain ⟨index, a, b, here, next, rfl⟩ := mem_curvesOf.mp member
      exact .curve here next start finish

private theorem not_draws_of_empty {subpath : Subpath ℝ} (shape : subpath.nodes = []) (p : Point ℝ) :
    ¬ subpath.Draws p := by
  intro drawn
  cases drawn with
  | first head => simp [shape] at head
  | curve here _ _ _ => simp [shape] at here

end Subpath

namespace Extent

/-- Each side of an extent is the least or the greatest coordinate of a set of points. -/
def Tight (extent : Extent ℝ) (drawn : Set (Point ℝ)) : Prop :=
  extent.horizontal.Tight (Point.x '' drawn) ∧ extent.vertical.Tight (Point.y '' drawn)

theorem Tight.unique {first second : Extent ℝ} {drawn : Set (Point ℝ)} (one : first.Tight drawn)
    (other : second.Tight drawn) : first = second := by
  obtain ⟨horizontal, vertical⟩ := first
  have across : horizontal = second.horizontal := one.1.unique other.1
  have along : vertical = second.vertical := one.2.unique other.2
  rw [across, along]

private theorem tight_ofPoint (p : Point ℝ) : (ofPoint p).Tight {p} := by
  simp only [Tight, image_singleton]
  exact ⟨⟨isLeast_singleton, isGreatest_singleton⟩, isLeast_singleton, isGreatest_singleton⟩

theorem tight_cover {extent : Extent ℝ} {drawn : Set (Point ℝ)} (tight : extent.Tight drawn) (p : Point ℝ) :
    (extent.cover p).Tight (insert p drawn) := by
  simp only [Tight, image_insert_eq]
  exact ⟨Span.tight_cover tight.1 p.x, Span.tight_cover tight.2 p.y⟩

def Covers (cover : Extent ℝ → Curve ℝ → Extent ℝ) : Prop :=
  ∀ extent drawn curve, extent.Tight drawn → curve.start ∈ drawn →
    (cover extent curve).Tight (drawn ∪ curve.trace)

theorem covers_coverCurve : Covers coverCurve := by
  intro extent drawn curve tight start
  simp only [Tight, image_union, Curve.image_trace_x, Curve.image_trace_y]
  exact ⟨Span.tight_coverCubic tight.1 (mem_image_of_mem _ start),
    Span.tight_coverCubic tight.2 (mem_image_of_mem _ start)⟩

noncomputable def searchCurve (extent : Extent ℝ) (curve : Curve ℝ) : Extent ℝ :=
  ⟨extent.horizontal.searchCubic curve.horizontal, extent.vertical.searchCubic curve.vertical⟩

private theorem covers_searchCurve : Covers searchCurve := by
  intro extent drawn curve tight _
  simp only [Tight, image_union, Curve.image_trace_x, Curve.image_trace_y]
  exact ⟨Span.tight_searchCubic tight.1 curve.horizontal, Span.tight_searchCubic tight.2 curve.vertical⟩

def TightAround (drawn : Set (Point ℝ)) : Option (Extent ℝ) → Prop
  | none => drawn = ∅
  | some extent => extent.Tight drawn

variable {cover : Extent ℝ → Curve ℝ → Extent ℝ}

/-- Every curve starts where the one before it ended, so its start is covered when its turn comes. -/
theorem tight_foldl (covers : Covers cover) {first : Node ℝ} {rest : List (Node ℝ)} {extent : Extent ℝ}
    {drawn : Set (Point ℝ)} (tight : extent.Tight drawn) (start : first.anchor ∈ drawn) :
    ((Subpath.curvesOf (first :: rest)).foldl cover extent).Tight
      (drawn ∪ {p | ∃ curve ∈ Subpath.curvesOf (first :: rest), p ∈ curve.trace}) := by
  induction rest generalizing first extent drawn with
  | nil => simpa [Subpath.curvesOf] using tight
  | cons second rest ih =>
    rw [Subpath.curvesOf, List.foldl_cons]
    let curve : Curve ℝ := ⟨first.anchor, first.outgoing, second.incoming, second.anchor⟩
    have step := covers extent drawn curve tight start
    have reached : second.anchor ∈ drawn ∪ curve.trace := .inr curve.finish_mem_trace
    refine (congrArg _ ?_).mp (ih step reached)
    ext p
    simp [curve, or_assoc]

noncomputable def coverSubpathWith (cover : Extent ℝ → Curve ℝ → Extent ℝ) (extent : Option (Extent ℝ))
    (subpath : Subpath ℝ) : Option (Extent ℝ) :=
  match subpath.nodes with
  | [] => extent
  | first :: _ =>
    some (subpath.curves.foldl cover ((extent.getD (ofPoint first.anchor)).cover first.anchor))

theorem coverSubpath_eq : coverSubpath = coverSubpathWith coverCurve := by
  funext extent subpath
  unfold coverSubpath coverSubpathWith
  cases subpath.nodes <;> rfl

private theorem tight_coverSubpath (covers : Covers cover) {extent : Option (Extent ℝ)} {drawn : Set (Point ℝ)}
    (tight : TightAround drawn extent) (subpath : Subpath ℝ) :
    TightAround (drawn ∪ {p | subpath.Draws p}) (coverSubpathWith cover extent subpath) := by
  unfold coverSubpathWith
  cases shape : subpath.nodes with
  | nil =>
    have nothing : {p | subpath.Draws p} = ∅ := by
      ext p
      simpa using Subpath.not_draws_of_empty shape p
    simpa [nothing] using tight
  | cons first rest =>
    have started : ((extent.getD (ofPoint first.anchor)).cover first.anchor).Tight
        (insert first.anchor drawn) := by
      cases extent with
      | none =>
        have nothing : drawn = ∅ := tight
        simpa [nothing] using tight_cover (tight_ofPoint first.anchor) first.anchor
      | some extent => exact tight_cover tight first.anchor
    rw [Subpath.curves, shape]
    refine (congrArg (Tight _) ?_).mp (tight_foldl covers started (mem_insert _ _))
    ext p
    simp only [mem_union, mem_insert_iff, mem_ofPred_eq, Subpath.draws_iff shape, Subpath.curves, shape]
    tauto

private theorem tight_coverSubpaths (covers : Covers cover) (subpaths : List (Subpath ℝ))
    {extent : Option (Extent ℝ)} {drawn : Set (Point ℝ)} (tight : TightAround drawn extent) :
    TightAround (drawn ∪ {p | ∃ subpath ∈ subpaths, subpath.Draws p})
      (subpaths.foldl (coverSubpathWith cover) extent) := by
  induction subpaths generalizing extent drawn with
  | nil => simpa using tight
  | cons subpath rest ih =>
    refine (congrArg (TightAround · _) ?_).mp (ih (tight_coverSubpath covers tight subpath))
    ext p
    simp [or_assoc]

theorem box_encloses {extent : Extent ℝ} {drawn : Set (Point ℝ)} (tight : extent.Tight drawn) :
    extent.box.Encloses drawn := by
  obtain ⟨⟨left, right⟩, top, bottom⟩ := tight
  have x : extent.box.x + extent.box.width = extent.horizontal.high := by
    simp [box, Box.ofCorners]
  have y : extent.box.y + extent.box.height = extent.vertical.high := by
    simp [box, Box.ofCorners]
  refine ⟨?_, left.1, ?_, top.1, ?_⟩
  · intro p member
    refine ⟨left.2 (mem_image_of_mem _ member), ?_, top.2 (mem_image_of_mem _ member), ?_⟩
    · exact (right.2 (mem_image_of_mem _ member)).trans x.ge
    · exact (bottom.2 (mem_image_of_mem _ member)).trans y.ge
  · rw [x]
    exact right.1
  · rw [y]
    exact bottom.1

end Extent

namespace Path

/-- The bounds of a path when the search for extreme values is never left out. -/
noncomputable def searchedBounds (path : Path ℝ) : Option (Box ℝ) :=
  (path.subpaths.foldl (Extent.coverSubpathWith Extent.searchCurve) none).map Extent.box

theorem tight_drawn {cover : Extent ℝ → Curve ℝ → Extent ℝ} (covers : Extent.Covers cover) (path : Path ℝ) :
    Extent.TightAround path.drawn (path.subpaths.foldl (Extent.coverSubpathWith cover) none) := by
  have nothing : Extent.TightAround ∅ none := rfl
  have tight := Extent.tight_coverSubpaths covers path.subpaths nothing
  rwa [empty_union] at tight

private theorem drawn_nonempty {path : Path ℝ} (nodes : path.isEmpty = false) : path.drawn.Nonempty := by
  have some_node : path.subpaths.flatMap Subpath.nodes ≠ [] := by
    intro none_left
    simp only [isEmpty, nodeCount, none_left] at nodes
    cases nodes
  obtain ⟨node, member⟩ := List.exists_mem_of_ne_nil _ some_node
  obtain ⟨subpath, listed, inside⟩ := List.mem_flatMap.mp member
  cases shape : subpath.nodes with
  | nil => simp [shape] at inside
  | cons first rest => exact ⟨first.anchor, subpath, listed, .first (by rw [shape]; rfl)⟩

/-- The bounds of a path with nodes are the smallest box around what it draws, and leaving out the
search for extreme values where it is left out does not change them. -/
theorem bounds_enclose {path : Path ℝ} (nodes : path.isEmpty = false) :
    ∃ box, path.bounds = some box ∧ box.Encloses path.drawn ∧
      (∀ other : Box ℝ, (∀ p ∈ path.drawn, other.Contains p) → ∀ p, box.Contains p → other.Contains p) ∧
      path.searchedBounds = path.bounds := by
  have tight := tight_drawn Extent.covers_coverCurve path
  have searched := tight_drawn Extent.covers_searchCurve path
  rw [bounds, Extent.coverSubpath_eq, searchedBounds]
  cases found : path.subpaths.foldl (Extent.coverSubpathWith Extent.coverCurve) none with
  | none =>
    rw [found] at tight
    exact absurd tight (drawn_nonempty nodes).ne_empty
  | some extent =>
    cases again : path.subpaths.foldl (Extent.coverSubpathWith Extent.searchCurve) none with
    | none =>
      rw [again] at searched
      exact absurd searched (drawn_nonempty nodes).ne_empty
    | some other =>
      rw [found] at tight
      rw [again] at searched
      have encloses := Extent.box_encloses tight
      refine ⟨extent.box, rfl, encloses, fun _ around _ => encloses.least around, ?_⟩
      rw [Extent.Tight.unique searched tight]

/-- An arch above its ends: both handles lie outside their span, so the height is searched for. -/
theorem bounds_enclose_arch :
    let arch : Path ℝ := ⟨[⟨[⟨⟨0, 0⟩, ⟨0, 0⟩, ⟨0, 10⟩⟩, ⟨⟨10, 10⟩, ⟨10, 0⟩, ⟨10, 0⟩⟩], false⟩]⟩
    arch.isEmpty = false ∧ (⟨0, 0, 10, 15 / 2⟩ : Box ℝ).Encloses arch.drawn := by
  intro arch
  have nodes : arch.isEmpty = false := rfl
  refine ⟨nodes, ?_⟩
  obtain ⟨box, found, encloses, _⟩ := bounds_enclose nodes
  have computed : arch.bounds = some ⟨0, 0, 10, 15 / 2⟩ := by
    norm_num [arch, bounds, Extent.coverSubpath, Extent.cover, Extent.ofPoint, Subpath.curves, Subpath.curvesOf,
      Extent.coverCurve, Span.coverCubic, Cubic.bulges, Span.cover, Extent.box, Box.ofCorners, Cubic.minimum,
      Cubic.maximum, Cubic.extreme, Cubic.extrema, Cubic.roots, Cubic.improve, Cubic.eval_eq, Scalar.lt,
      Scalar.eq]
  rw [computed] at found
  cases found
  exact encloses

end Path
end EnvelopeWarp
