import EnvelopeWarp.Proofs.StableText
import EnvelopeWarp.Proofs.StoredPaths

/-! Paths that are written with a fixed number of places. The numbers in such a text are the texts of the coordinates in the
order in which they are written, each without needless characters, and reading the text and writing it again changes
nothing. This holds for every path that can be had: one that was read, and whatever warps make of it. -/

namespace EnvelopeWarp

instance : DecidablePred Literal.Part :=
  fun c => inferInstanceAs (Decidable (c.isDigit = true ∨ c ∈ ['+', '-', '.', 'e', 'E']))

section Coordinates
variable {α β : Type}

def Point.coordinates (p : Point α) : List α :=
  [p.x, p.y]

def Curve.coordinates (curve : Curve α) : List α :=
  curve.first.coordinates ++ curve.second.coordinates ++ curve.finish.coordinates

def Subpath.coordinates (subpath : Subpath α) : List α :=
  match subpath.nodes with
  | [] => []
  | first :: _ => first.anchor.coordinates ++ subpath.curves.flatMap Curve.coordinates

/-- The coordinates of a path in the order in which they are written. -/
def Path.coordinates (path : Path α) : List α :=
  path.subpaths.flatMap Subpath.coordinates

theorem Path.every_coordinates {property : α → Prop} {path : Path α} (every : path.Every property) :
    ∀ x ∈ path.coordinates, property x := by
  have point {p : Point α} (both : p.Every property) : ∀ x ∈ p.coordinates, property x :=
    List.forall_mem_cons.mpr ⟨both.1, List.forall_mem_singleton.mpr both.2⟩
  refine List.forall_mem_flatMap.mpr fun subpath listed => ?_
  have curves := PathData.every_curvesOf (every subpath listed)
  have inside := every subpath listed
  unfold Subpath.coordinates Subpath.curves
  cases shape : subpath.nodes with
  | nil => nofun
  | cons first rest =>
    rw [shape] at curves inside
    refine List.forall_mem_append.mpr ⟨point (inside first (.head _)).2.1, ?_⟩
    refine List.forall_mem_flatMap.mpr fun curve member => ?_
    obtain ⟨one, two, three⟩ := curves curve member
    exact List.forall_mem_append.mpr ⟨List.forall_mem_append.mpr ⟨point one, point two⟩, point three⟩

end Coordinates

namespace Path
variable {α β : Type}

/-- The numbers in a text: what is left between the characters that no literal is made of. -/
def numerals (text : List Char) : List (List Char) :=
  (text.splitOnP fun c => !decide (Literal.Part c)).filter fun word => !word.isEmpty

private theorem numerals_append {c : Char} (other : ¬Literal.Part c) (before after : List Char) :
    numerals (before ++ c :: after) = numerals before ++ numerals after := by
  rw [numerals, List.splitOnP_append_cons _ _ (by simpa using other), List.filter_append]
  rfl

private theorem numerals_cons {c : Char} (other : ¬Literal.Part c) (text : List Char) :
    numerals (c :: text) = numerals text :=
  numerals_append other [] text

private theorem numerals_word {word : List Char} (some_char : word ≠ []) (parts : ∀ c ∈ word, Literal.Part c) :
    numerals word = [word] := by
  rw [numerals, List.splitOnP_eq_singleton fun c member => by simpa using parts c member]
  simpa using some_char

private theorem numerals_spaced (texts : List (List Char)) : numerals (spaced texts) = texts.flatMap numerals := by
  induction texts with
  | nil => rfl
  | cons text texts ih =>
    cases texts with
    | nil => simp [spaced]
    | cons next texts =>
      rw [List.flatMap_cons, ← ih]
      exact numerals_append (by decide) text _

section Written
variable {number : α → List Char} {word : α → Prop} (alone : ∀ x, word x → numerals (number x) = [number x])
include alone

private theorem numerals_writePoint {p : Point α} (words : p.Every word) :
    numerals (writePoint number p) = p.coordinates.map number := by
  rw [writePoint, numerals_append (by decide), alone _ words.1, alone _ words.2]
  rfl

private theorem numerals_writeCurve {curve : Curve α} (first : curve.first.Every word)
    (second : curve.second.Every word)
    (finish : curve.finish.Every word) : numerals (writeCurve number curve) = curve.coordinates.map number := by
  rw [writeCurve, numerals_cons (by decide), numerals_cons (by decide), numerals_spaced]
  simp only [List.flatMap_cons, List.flatMap_nil, List.append_nil, numerals_writePoint alone first,
    numerals_writePoint alone second, numerals_writePoint alone finish, Curve.coordinates, List.map_append,
    List.append_assoc]

private theorem numerals_writeSubpath {subpath : Subpath α} (words : ∀ node ∈ subpath.nodes, node.Every word) :
    (writeSubpath number subpath).flatMap numerals = subpath.coordinates.map number := by
  have curves := PathData.every_curvesOf words
  unfold writeSubpath Subpath.coordinates Subpath.curves
  cases shape : subpath.nodes with
  | nil => rfl
  | cons first rest =>
    rw [shape] at curves words
    have start : numerals ('M' :: ' ' :: writePoint number first.anchor) = first.anchor.coordinates.map number := by
      rw [numerals_cons (by decide), numerals_cons (by decide), numerals_writePoint alone (words first (.head _)).2.1]
    have closing : (if subpath.closed then [['Z']] else []).flatMap numerals = [] := by
      cases subpath.closed <;> rfl
    have drawn : ((Subpath.curvesOf (first :: rest)).map (writeCurve number)).flatMap numerals =
        ((Subpath.curvesOf (first :: rest)).flatMap Curve.coordinates).map number := by
      rw [List.flatMap_map, List.map_flatMap]
      refine List.flatMap_congr fun curve member => ?_
      obtain ⟨one, two, three⟩ := curves curve member
      exact numerals_writeCurve alone one two three
    rw [List.flatMap_append, List.flatMap_cons, start, drawn, closing, List.append_nil, List.map_append]

/-- The numbers in what is written of a path are its coordinates, one by one. -/
theorem numerals_write {path : Path α} (words : path.Every word) :
    numerals (path.write number) = path.coordinates.map number := by
  rw [write, numerals_spaced, List.flatMap_assoc, coordinates, List.map_flatMap]
  exact List.flatMap_congr fun subpath listed => numerals_writeSubpath alone (words subpath listed)

end Written

private theorem write_map (f : α → β) (number : β → List Char) (path : Path α) :
    (path.map f).write number = path.write fun x => number (f x) := by
  rw [PathData.write_commands, PathData.write_commands, commands_map, List.map_map]
  exact congrArg spaced (List.map_congr_left fun command _ => command.write_map f number)

private theorem write_congr {first second : α → List Char} {path : Path α}
    (same : path.Every fun x => first x = second x) : path.write first = path.write second := by
  rw [PathData.write_commands, PathData.write_commands]
  exact congrArg spaced (List.map_congr_left fun command listed =>
    Command.write_congr (PathData.every_commands same command listed))

/-- The paths that there are: those that were read, and what warps make of such a path. -/
inductive Obtained : Path Float → Prop
  | parsed {text : String} {path : Path Float} (read : parse text = .ok path) : Obtained path
  | warped {path image : Path Float} (warp : Warp Float) (before : Obtained path) (went : warp.applyPath path = .ok image) :
    Obtained image

theorem Obtained.drawn {path : Path Float} (obtained : Obtained path) : ∀ subpath ∈ path.subpaths, subpath.Drawn := by
  induction obtained with
  | parsed read => exact drawn_of_parse read
  | warped warp before went ih =>
    refine (mapPoints_eq_ok.mp went).drawn ?_ ?_ ih
    · intro p q r first second
      exact Except.ok.inj (first.symm.trans second)
    · intro p p' q r equal first second
      rw [Warp.apply_congr equal] at first
      exact Except.ok.inj (first.symm.trans second)

private theorem numerals_coordinate {x : Float} (finite : x.isFinite = true) (places : Nat) :
    numerals (coordinate (some places) x) = [coordinate (some places) x] := by
  have sound := (sound_fixedNumber places x).trimmed.literal (fixedNegative places x)
  rw [coordinate_fixed finite]
  exact numerals_word (Literal.scan?_text_ne_nil (Literal.scan?_text sound (Free.nil _))) sound.part

/-- A path with finite coordinates that is written with a fixed number of places reads as a path of the same shape, which is
written with the same text; the numbers in it are the coordinates, each with no more digits than it may have, without
zeros at the end or a sign on zero, and each the decimal that rounding to the places gives. -/
theorem data_stable {path : Path Float} (obtained : Obtained path) (finite : path.Every fun x => x.isFinite = true)
    (places : Nat) :
    (∃ again, parse (path.data (some places)) = .ok again ∧ again.shape = path.shape ∧
      again.data (some places) = path.data (some places)) ∧
    numerals (path.data (some places)).toList = path.coordinates.map (coordinate (some places)) ∧
    ∀ x ∈ path.coordinates, Tidy places (coordinate (some places) x) ∧ ∃ written exact : Decimal,
      Spells (coordinate (some places) x) written ∧ Spells ((Layout.fixed places).text x) exact ∧
      (Scalar.ofDecimal written : ℝ) = Scalar.ofDecimal exact := by
  refine ⟨⟨_, parse_data_eq_reread obtained.drawn finite (some places), shape_map _ _, ?_⟩, ?_, fun x listed => ?_⟩
  · rw [data, data, write_map]
    exact congrArg String.ofList (write_congr (finite.imp fun x finite => coordinate_reread finite places))
  · rw [data, String.toList_ofList]
    exact numerals_write (fun x finite => numerals_coordinate finite places) finite
  · have finite := every_coordinates finite x listed
    exact ⟨tidy_coordinate finite places, spells_fixed finite places⟩

/-- Thirds of a length are rounded, and what is left of a small one is a zero without a sign. -/
theorem data_stable_warped : ∃ (path image : Path Float) (warp : Warp Float),
    parse "M0 0L1-.001H2Z" = .ok path ∧ warp.applyPath path = .ok image ∧
      (image.Every fun x => x.isFinite = true) ∧
      (∃ again, parse (image.data (some 2)) = .ok again ∧ again.shape = image.shape ∧
        again.data (some 2) = image.data (some 2)) ∧
      numerals (image.data (some 2)).toList = image.coordinates.map (coordinate (some 2)) ∧
      ∀ x ∈ image.coordinates, Tidy 2 (coordinate (some 2) x) ∧ ∃ written exact : Decimal,
        Spells (coordinate (some 2) x) written ∧ Spells ((Layout.fixed 2).text x) exact ∧
        (Scalar.ofDecimal written : ℝ) = Scalar.ofDecimal exact := by
  let commands : List (Command Decimal) := [.move false ⟨⟨false, 0, 0⟩, ⟨false, 0, 0⟩⟩,
    .line false ⟨⟨false, 1, 0⟩, ⟨true, 1, -3⟩⟩, .horizontal false ⟨false, 2, 0⟩, .close]
  let path : Path Float := ofCommands (commands.map (Command.map Scalar.ofDecimal))
  let corner (x y : Nat) : Point Float := ⟨Scalar.ofNat x, -Scalar.ofNat y⟩
  let warp : Warp Float := ⟨⟨Scalar.ofNat 0, Scalar.ofNat 0, Scalar.ofNat 3, Scalar.ofNat 3⟩,
    ⟨corner 0 0, corner 5 0, corner 5 1, corner 0 1⟩⟩
  have listed : PathData.commands "M0 0L1-.001H2Z".toList = .ok commands := by cbv
  have read : parse "M0 0L1-.001H2Z" = .ok path := by rw [parse, ofData, listed]
  have finite : (warp.applyPath path).toOption.any
      (fun image => decide (image.Every fun x => x.isFinite = true)) = true := by
    decide +kernel
  cases went : warp.applyPath path with
  | error error =>
    rw [went] at finite
    cases finite
  | ok image =>
    rw [went] at finite
    have finite := of_decide_eq_true finite
    exact ⟨path, image, warp, read, went, finite, data_stable (.warped warp (.parsed read) went) finite 2⟩

end Path
end EnvelopeWarp
