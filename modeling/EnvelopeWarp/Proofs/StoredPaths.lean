import EnvelopeWarp.Proofs.EnvelopeRuns
import EnvelopeWarp.Proofs.FittedPaths
import EnvelopeWarp.Proofs.RereadPaths

/-! What an envelope leaves in a drawing. A warp sends equal points to the same point, so the image of a drawn path is a
drawn path. Its data reads as a path of the same shape when all coordinates of the image are finite, and cannot be
read otherwise. -/

namespace EnvelopeWarp

private theorem exists_head_of_forall₂ {α β : Type} {related : α → β → Prop} {items : List α} {images : List β}
    (pairs : List.Forall₂ related items images) : ∀ image ∈ images.head?, ∃ item ∈ items.head?, related item image := by
  intro image head
  cases pairs with
  | nil => cases head
  | cons first _ =>
    cases head
    exact ⟨_, rfl, first⟩

private theorem exists_last_of_forall₂ {α β : Type} {related : α → β → Prop} {items : List α} {images : List β}
    (pairs : List.Forall₂ related items images) :
    ∀ image ∈ images.getLast?, ∃ item ∈ items.getLast?, related item image := by
  intro image last
  rw [← List.head?_reverse] at last
  obtain ⟨item, head, pair⟩ := exists_head_of_forall₂ (List.forall₂_reverse_iff.mpr pairs) image last
  rw [List.head?_reverse] at head
  exact ⟨item, head, pair⟩

section Drawn
variable {α : Type} [Scalar α] {related : Point α → Point α → Prop}

/-- A map that sends equal points to one point keeps a subpath drawn. -/
theorem Subpath.Drawn.mapped (function : ∀ p q r, related p q → related p r → q = r)
    (respects : ∀ p p' q r, p.same p' = true → related p q → related p' r → q = r)
    {subpath image : Subpath α} (drawn : subpath.Drawn) (mapped : subpath.Mapped related image) : image.Drawn := by
  obtain ⟨some_node, starts, ends, closes⟩ := drawn
  have head := exists_head_of_forall₂ mapped.nodes
  have last := exists_last_of_forall₂ mapped.nodes
  refine ⟨?_, ?_, ?_, ?_⟩
  · intro none_left
    have length := mapped.nodes.length_eq
    rw [none_left, List.length_nil] at length
    exact some_node (List.eq_nil_of_length_eq_zero length)
  · intro node first
    obtain ⟨origin, origin_first, own⟩ := head node first
    have anchor := own.anchor
    rw [← starts origin origin_first] at anchor
    exact function _ _ _ own.incoming anchor
  · intro node final
    obtain ⟨origin, origin_last, own⟩ := last node final
    have anchor := own.anchor
    rw [← ends origin origin_last] at anchor
    exact function _ _ _ own.outgoing anchor
  · intro closed first at_start final at_end
    obtain ⟨origin, origin_first, own⟩ := head first at_start
    obtain ⟨other, other_last, others⟩ := last final at_end
    rcases closes (mapped.closed.symm.trans closed) origin origin_first other other_last with same | equal
    · have anchor := others.anchor
      rw [same] at anchor
      exact .inl (function _ _ _ anchor own.anchor)
    · exact .inl (respects _ _ _ _ equal others.anchor own.anchor)

theorem Path.Mapped.drawn (function : ∀ p q r, related p q → related p r → q = r)
    (respects : ∀ p p' q r, p.same p' = true → related p q → related p' r → q = r)
    {path image : Path α} (drawn : ∀ subpath ∈ path.subpaths, subpath.Drawn) (mapped : path.Mapped related image) :
    ∀ subpath ∈ image.subpaths, subpath.Drawn := by
  intro subpath listed
  obtain ⟨before, member, pair⟩ := exists_mem_of_forall₂ mapped listed
  exact (drawn before member).mapped function respects pair

end Drawn

/-- Equal points have equal ratios, even where the signs of zeros differ. -/
theorem Warp.apply_congr {p q : Point Float} (equal : p.same q = true) (warp : Warp Float) : warp.apply p = warp.apply q := by
  obtain ⟨x, y⟩ := Bool.and_eq_true_iff.mp equal
  have ratios : warp.ratios p = warp.ratios q := by
    have across := Double.abs_sub_congr x warp.source.x
    have along := Double.abs_sub_congr y warp.source.y
    exact congrArg₂ Point.mk (congrArg (· / warp.source.width) across) (congrArg (· / warp.source.height) along)
  rw [apply, apply, ratios]

namespace Envelope

theorem Fits.drawn {drawing : Drawing} {selection : List String} {path : Path Float} {fitted : Fitted Float}
    (fits : Fits drawing selection path fitted) : ∀ subpath ∈ fitted.path.subpaths, subpath.Drawn := by
  obtain ⟨_, _, _, _, _, read⟩ := fits.prepared.object
  refine fits.mapped.drawn ?_ ?_ (Path.drawn_of_parse read)
  · intro p q r first second
    exact Except.ok.inj (first.symm.trans second)
  · intro p p' q r equal first second
    rw [Warp.apply_congr equal] at first
    exact Except.ok.inj (first.symm.trans second)

theorem run_eq_ok {drawing changed : Drawing} {envelope : Envelope} {measure : Measure Id Float} {account : Report} :
    Id.run (envelope.run measure drawing) = (.ok account, changed) ↔ ∃ fitted,
      Id.run (fit measure envelope.selection drawing) = .ok fitted ∧ report fitted = account ∧
      drawing.setPathData fitted.object (fitted.path.data envelope.precision) = .ok changed := by
  change envelope.install drawing (Id.run (fit measure envelope.selection drawing)) = _ ↔ _
  cases Id.run (fit measure envelope.selection drawing) with
  | error error => simp [install]
  | ok fitted =>
    simp only [install, Except.ok.injEq, exists_eq_left']
    cases drawing.setPathData fitted.object (fitted.path.data envelope.precision) <;> simp

private theorem shows_of_set {drawing changed : Drawing} {id data : String} {before path : Path Float}
    (shown : Shows drawing id before) (set : drawing.setPathData id data = .ok changed) :
    Shows changed id path ↔ Path.parse data = .ok path := by
  obtain ⟨element, _, named, isPath, _, _⟩ := shown
  have stored : changed.element? id = some { element with pathData := some data } := by
    rw [Drawing.element?_setPathData set, named]
    rfl
  constructor
  · rintro ⟨found, text, same, _, own, read⟩
    rw [stored] at same
    cases same
    cases own
    exact read
  · intro read
    exact ⟨_, data, stored, isPath, rfl, read⟩

/-- After an envelope was applied, the object shows a path of the shape it had before, with as many nodes as were
reported, when every coordinate of the fitted path is finite, and otherwise it shows no path at all. -/
theorem run_stores {drawing changed : Drawing} {envelope : Envelope} {measure : Measure Id Float} {account : Report}
    (ran : Id.run (envelope.run measure drawing) = (.ok account, changed)) :
    ∃ (path : Path Float) (fitted : Fitted Float), Id.run (fit measure envelope.selection drawing) = .ok fitted ∧
      Shows drawing account.object path ∧ account.nodes = path.nodeCount ∧
      ((fitted.path.Every fun x => x.isFinite = true) →
        ∃ again : Path Float, Shows changed account.object again ∧ again.shape = path.shape ∧ again.nodeCount = account.nodes) ∧
      ((¬fitted.path.Every fun x => x.isFinite = true) → ¬∃ again : Path Float, Shows changed account.object again) := by
  obtain ⟨fitted, found, rfl, set⟩ := run_eq_ok.mp ran
  obtain ⟨path, measured, fits, _, _⟩ := fit_eq_ok.mp found
  have shown := fits.prepared.object
  have shape := fits.mapped.shape_eq
  refine ⟨path, fitted, found, shown, Path.nodeCount_of_shape shape, ?_, ?_⟩
  · intro finite
    have read := Path.parse_data_eq_reread fits.drawn finite envelope.precision
    have same := Path.shape_map (Path.reread envelope.precision) fitted.path
    exact ⟨_, (shows_of_set shown set).mpr read, same.trans shape, Path.nodeCount_of_shape same⟩
  · intro infinite ⟨again, stored⟩
    exact infinite (Path.every_finite_of_parse fits.drawn ((shows_of_set shown set).mp stored))

theorem run_stores_diagonal :
    let drawing : Drawing := ⟨"<svg><path id='a' d='M0 0L1 1Z'/><path id='b' d='M0 0H2V2H0Z'/></svg>",
      [⟨"a", "path", 1, some "M0 0L1 1Z"⟩, ⟨"b", "path", 2, some "M0 0H2V2H0Z"⟩], [("a", 0), ("b", 1)], none, none, []⟩
    let envelope : Envelope := ⟨["a", "b"], some 1⟩
    ∃ account changed, Id.run (envelope.run Measure.geometry drawing) = (.ok account, changed) ∧
      ∃ again : Path Float, Shows changed account.object again ∧ again.nodeCount = account.nodes := by
  intro drawing envelope
  have finite : (Id.run (fit Measure.geometry envelope.selection drawing)).toOption.any (fun fitted : Fitted Float =>
      decide (fitted.path.Every fun x => x.isFinite = true)) = true := by decide +kernel
  have applied : (Id.run (envelope.run Measure.geometry drawing)).1.toOption.isSome = true := by decide +kernel
  cases ran : Id.run (envelope.run Measure.geometry drawing) with
  | mk outcome changed =>
    rw [ran] at applied
    cases outcome with
    | error error => cases applied
    | ok account =>
      obtain ⟨path, fitted, found, _, _, stores, _⟩ := run_stores ran
      rw [found] at finite
      obtain ⟨again, stored, _, count⟩ := stores (of_decide_eq_true finite)
      exact ⟨account, changed, rfl, again, stored, count⟩

/-- An edge can be too long for a double, and zero times its extent is no number. So an envelope can be applied and leave
data that cannot be read. -/
theorem not_forall_run_readable : ¬∀ (drawing changed : Drawing) (envelope : Envelope) (measure : Measure Id Float)
    (account : Report), Drawing.parse drawing.source = .ok drawing →
      Id.run (envelope.run measure drawing) = (.ok account, changed) →
      ∃ again : Path Float, Shows changed account.object again := by
  intro readable
  let drawing : Drawing := ⟨"<svg><path id='a' d='M0 0L1 1'/><path id='b' d='M-1e308 0H1e308V1H-1e308Z'/></svg>",
    [⟨"a", "path", 1, some "M0 0L1 1"⟩, ⟨"b", "path", 2, some "M-1e308 0H1e308V1H-1e308Z"⟩], [("a", 0), ("b", 1)],
    none, none, []⟩
  let envelope : Envelope := ⟨["a", "b"], none⟩
  have parsed : Drawing.parse drawing.source = .ok drawing := by decide +kernel
  have stored : (Id.run (envelope.run Measure.geometry drawing)).1.toOption.map Report.object = some "a" ∧
      (Id.run (envelope.run Measure.geometry drawing)).2.element? "a" =
        some ⟨"a", "path", 1, some "M NaN,NaN C NaN,NaN NaN,NaN NaN,NaN"⟩ := by decide +kernel
  cases ran : Id.run (envelope.run Measure.geometry drawing) with
  | mk outcome changed =>
    rw [ran] at stored
    cases outcome with
    | error error => cases stored.1
    | ok account =>
      obtain ⟨again, element, data, named, _, shown, read⟩ := readable _ _ envelope _ account parsed ran
      have object : account.object = "a" := Option.some.inj stored.1
      rw [object, stored.2] at named
      cases named
      cases shown
      have letter : 'N' ∈ "M NaN,NaN C NaN,NaN NaN,NaN NaN,NaN".toList := by decide
      obtain ⟨error, failed⟩ := Path.parse_error_of_mem (α := Float) letter (Grammar.not_letter (.inr rfl))
      rw [failed] at read
      cases read

end Envelope
end EnvelopeWarp
