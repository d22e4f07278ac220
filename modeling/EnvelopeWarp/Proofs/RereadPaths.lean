import EnvelopeWarp.Proofs.DataAlphabet
import EnvelopeWarp.Proofs.PathRoundTrip
import EnvelopeWarp.Proofs.RoundedText

/-! A drawn path that is written at any precision. When its coordinates are finite, what is written reads as the same
path with each coordinate rounded, so no shape is lost; one coordinate that is not finite makes all of it unreadable,
since every coordinate of a drawn path is that of a point that is written. -/

namespace EnvelopeWarp

theorem Literal.scan?_spells {text : List Char} {value : Decimal} (spells : Spells text value) :
    ∃ literal, scan? text = some (literal, []) ∧ literal.value = value := by
  obtain ⟨literal, sound, rfl, rfl⟩ := spells
  have scanned := scan?_text sound (Free.nil goesOn)
  rw [List.append_nil] at scanned
  exact ⟨literal, scanned, rfl⟩

namespace Path

theorem shape_map {α β : Type} (f : α → β) (path : Path α) : (path.map f).shape = path.shape := by
  simp [shape, map, Subpath.map, Function.comp_def]

/-- The decimal that the text of a coordinate spells. -/
def rounded (precision : Option Nat) (x : Float) : Decimal :=
  match Literal.scan? (coordinate precision x) with
  | some (literal, _) => literal.value
  | none => default

private theorem spells_rounded {x : Float} (finite : x.isFinite = true) (precision : Option Nat) :
    Spells (coordinate precision x) (rounded precision x) := by
  obtain ⟨value, spells⟩ := exists_coordinate_spells finite precision
  obtain ⟨literal, scanned, same⟩ := Literal.scan?_spells spells
  have own : rounded precision x = value := by
    rw [rounded, scanned]
    exact same
  rwa [own]

/-- What a coordinate is when its text is read. -/
def reread (precision : Option Nat) (x : Float) : Float :=
  Double.ofDecimal (rounded precision x)

private theorem reread_congr {x y : Float} (equal : (x == y) = true) (precision : Option Nat) :
    reread precision x = reread precision y := by
  rw [reread, reread, rounded, rounded, coordinate_congr equal]

theorem parse_data_eq_reread {path : Path Float} (drawn : ∀ subpath ∈ path.subpaths, subpath.Drawn)
    (finite : path.Every fun x => x.isFinite = true) (precision : Option Nat) :
    parse (path.data precision) = .ok (path.map (reread precision)) := by
  have redrawable : ∀ subpath ∈ (path.map (reread precision)).subpaths, subpath.Redrawable := by
    intro subpath member
    obtain ⟨before, listed, rfl⟩ := List.mem_map.mp member
    refine Subpath.redrawable_map (fun x _ => ?_) (fun x y _ _ same => ?_) (drawn before listed) (finite before listed)
    · exact Double.eq_self_ofDecimal _
    · rw [reread_congr same]
      exact Double.eq_self_ofDecimal _
  exact parse_data_of_spells drawn (finite.imp fun x finite => spells_rounded finite precision) redrawable

private theorem mem_spaced {texts : List (List Char)} {text : List Char} (listed : text ∈ texts) {c : Char}
    (member : c ∈ text) : c ∈ spaced texts := by
  induction texts with
  | nil => cases listed
  | cons first rest ih =>
    cases rest with
    | nil =>
      obtain rfl := List.mem_singleton.mp listed
      exact member
    | cons second rest =>
      rcases List.mem_cons.mp listed with rfl | later
      · exact List.mem_append_left _ member
      · exact List.mem_append_right _ (.tail _ (ih later))

section Written
variable {α : Type} {number : α → List Char} {property : Char → Prop}

private theorem every_of_writePoint {p : Point α} (all : ∀ c ∈ writePoint number p, property c) :
    p.Every fun x => ∀ c ∈ number x, property c :=
  ⟨fun c member => all c (List.mem_append_left _ member), fun c member => all c (List.mem_append_right _ (.tail _ member))⟩

/-- The points that are written are those of a drawn subpath: the handles that are left out lie on their anchors. -/
theorem every_of_curvesOf {every : α → Prop} {node : Node α} {rest : List (Node α)}
    (starts : node.incoming.Every every ∧ node.anchor.Every every)
    (ends : ∀ last ∈ (node :: rest).getLast?, last.outgoing = last.anchor)
    (curves : ∀ curve ∈ Subpath.curvesOf (node :: rest),
      curve.first.Every every ∧ curve.second.Every every ∧ curve.finish.Every every) :
    ∀ other ∈ node :: rest, other.Every every := by
  induction rest generalizing node with
  | nil =>
    intro other member
    obtain rfl := List.mem_singleton.mp member
    have out : other.outgoing = other.anchor := ends other rfl
    exact ⟨starts.1, starts.2, out ▸ starts.2⟩
  | cons second rest ih =>
    obtain ⟨first, next, finish⟩ := curves _ (.head _)
    intro other member
    rcases List.mem_cons.mp member with rfl | later
    · exact ⟨starts.1, starts.2, first⟩
    · refine ih ⟨next, finish⟩ (fun last final => ends last ?_) (fun curve inside => curves curve (.tail _ inside)) other later
      rwa [List.getLast?_cons_cons]

private theorem every_of_write [Scalar α] {path : Path α} (drawn : ∀ subpath ∈ path.subpaths, subpath.Drawn)
    (all : ∀ c ∈ path.write number, property c) : path.Every fun x => ∀ c ∈ number x, property c := by
  intro subpath listed
  have texts : ∀ text ∈ writeSubpath number subpath, ∀ c ∈ text, property c := fun text member c inside =>
    all c (mem_spaced (List.mem_flatMap.mpr ⟨subpath, listed, member⟩) inside)
  obtain ⟨some_node, starts, ends, _⟩ := drawn subpath listed
  obtain ⟨nodes, closed⟩ := subpath
  obtain ⟨first, rest, rfl⟩ := List.exists_cons_of_ne_nil some_node
  have anchor : first.anchor.Every fun x => ∀ c ∈ number x, property c := by
    apply every_of_writePoint
    intro c member
    exact texts _ (.head _) c (.tail _ (.tail _ member))
  have incoming : first.incoming = first.anchor := starts first rfl
  refine every_of_curvesOf ⟨incoming ▸ anchor, anchor⟩ ends fun curve inside => ?_
  have written : ∀ c ∈ writeCurve number curve, property c :=
    texts _ (List.mem_append_left _ (.tail _ (List.mem_map_of_mem inside)))
  have points : ∀ p ∈ [curve.first, curve.second, curve.finish], p.Every fun x => ∀ c ∈ number x, property c := by
    intro p member
    apply every_of_writePoint
    intro c character
    exact written c (.tail _ (.tail _ (mem_spaced (List.mem_map_of_mem member) character)))
  exact ⟨points _ (.head _), points _ (.tail _ (.head _)), points _ (.tail _ (.tail _ (.head _)))⟩

end Written

/-- A coordinate that is not finite makes path data that cannot be read. -/
theorem every_finite_of_parse {path : Path Float} (drawn : ∀ subpath ∈ path.subpaths, subpath.Drawn)
    {precision : Option Nat} {again : Path Float} (read : parse (path.data precision) = .ok again) :
    path.Every fun x => x.isFinite = true := by
  have letters : ∀ c ∈ path.write (coordinate precision), Grammar.Letter c := by
    intro c member
    by_contra other
    have inside : c ∈ (path.data precision).toList := by rwa [data, String.toList_ofList]
    obtain ⟨error, failed⟩ := parse_error_of_mem (α := Float) inside other
    rw [read] at failed
    cases failed
  refine (every_of_write drawn letters).imp fun x all => ?_
  cases finite : x.isFinite with
  | true => rfl
  | false =>
    obtain ⟨c, member, word⟩ := coordinate_of_not_finite finite precision
    exact absurd (all c member) (Grammar.not_letter word)

end Path
end EnvelopeWarp
