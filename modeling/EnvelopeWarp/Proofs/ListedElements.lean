import EnvelopeWarp.Proofs.DrawingRoundTrip

/-! Which tags the elements of a drawing stand for. A tag carries an id when one of its attributes gives it that id.
An index lists an id at a place exactly when the tag there is the first one that carries it, so the places at which
path data is replaced can be told from the tags alone. -/

namespace EnvelopeWarp

/-- A tag has an attribute that gives it an id. -/
def Tag.Carries (tag : Tag) (id : String) : Prop :=
  ∃ item ∈ tag.attributes.items, item.key = "id".toList ∧ item.value = .ok id.toList

namespace Drawing

private theorem readValue_eq_ok {item : Attribute} {found : Option String} :
    readValue item = .ok found ↔ ∃ value, item.value = .ok value ∧ found = some (String.ofList value) := by
  unfold readValue
  cases item.value with
  | ok value => simp [eq_comm]
  | error fault => simp

namespace Marks

private theorem id_add_other {marks next : Marks} {item : Attribute} (other : item.key ≠ "id".toList)
    (added : marks.add item = .ok next) : next.id = marks.id := by
  rw [add, if_neg other] at added
  split at added
  · obtain ⟨value, _, same⟩ := bind_eq_ok.mp added
    cases same
    rfl
  split at added
  · obtain ⟨value, _, same⟩ := bind_eq_ok.mp added
    cases same
    rfl
  split at added
  · obtain ⟨value, _, same⟩ := bind_eq_ok.mp added
    cases same
    rfl
  · cases added
    rfl

private theorem id_add {marks next : Marks} {item : Attribute} (added : marks.add item = .ok next) (id : String) :
    next.id = some id ↔ item.key = "id".toList ∧ item.value = .ok id.toList ∨
      item.key ≠ "id".toList ∧ marks.id = some id := by
  by_cases own : item.key = "id".toList
  · rw [add, if_pos own] at added
    obtain ⟨found, read, same⟩ := bind_eq_ok.mp added
    obtain ⟨value, given, rfl⟩ := readValue_eq_ok.mp read
    cases same
    simp [own, given, ← String.toList_inj]
  · rw [id_add_other own added]
    exact ⟨fun before => .inr ⟨own, before⟩, fun either => either.elim (fun first => absurd first.1 own) And.right⟩

/-- Of attributes with names of their own, one gives the id or none does. -/
theorem id_foldlM {items : List Attribute} (distinct : (items.map Attribute.key).Nodup) {marks last : Marks}
    (run : items.foldlM add marks = .ok last) (id : String) :
    last.id = some id ↔ (∃ item ∈ items, item.key = "id".toList ∧ item.value = .ok id.toList) ∨
      "id".toList ∉ items.map Attribute.key ∧ marks.id = some id := by
  induction items generalizing marks with
  | nil =>
    cases run
    simp
  | cons item items ih =>
    obtain ⟨next, added, rest⟩ := bind_eq_ok.mp run
    rw [List.map_cons, List.nodup_cons] at distinct
    have alone : item.key = "id".toList → "id".toList ∉ items.map Attribute.key := fun own => own ▸ distinct.1
    rw [ih distinct.2 rest, id_add added, List.map_cons, List.mem_cons, not_or, List.exists_mem_cons_iff]
    constructor
    · rintro (later | ⟨absent, first | ⟨other, before⟩⟩)
      · exact .inl (.inr later)
      · exact .inl (.inl first)
      · exact .inr ⟨⟨Ne.symm other, absent⟩, before⟩
    · rintro ((first | later) | ⟨⟨other, absent⟩, before⟩)
      · exact .inr ⟨alone first.1, .inl first⟩
      · exact .inl later
      · exact .inr ⟨absent, .inr ⟨Ne.symm other, before⟩⟩

/-- The id that is read of a tag is the one that it carries. -/
theorem id_eq_some_iff {tag : Tag} {marks : Marks} (read : ofTag tag = .ok marks) (id : String) :
    marks.id = some id ↔ tag.Carries id := by
  obtain ⟨items, attributes, run⟩ := Reading.fold_eq_ok.mp read
  obtain ⟨_, _, distinct⟩ := Tag.lists_of_attributesFrom attributes
  unfold Tag.Carries
  rw [id_foldlM distinct run, attributes]
  simp

end Marks

/-- The tag at a place carries an id that no tag before it carries. -/
structure First (tags : List Tag) (id : String) (place : Nat) : Prop where
  carries : ∃ tag, tags[place]? = some tag ∧ tag.Carries id
  alone : ∀ earlier ∈ tags.take place, ¬earlier.Carries id

theorem First.place_lt {tags : List Tag} {id : String} {place : Nat} (first : First tags id place) :
    place < tags.length := by
  obtain ⟨tag, found, _⟩ := first.carries
  exact (List.getElem?_eq_some_iff.mp found).1

theorem first_append {front : List Tag} {tag : Tag} {back : List Tag} {id : String} :
    First (front ++ tag :: back) id front.length ↔ tag.Carries id ∧ ∀ earlier ∈ front, ¬earlier.Carries id := by
  have here : (front ++ tag :: back)[front.length]? = some tag := by simp
  have before : (front ++ tag :: back).take front.length = front := List.take_left
  constructor
  · rintro ⟨⟨found, same, carries⟩, alone⟩
    rw [here] at same
    rw [before] at alone
    cases same
    exact ⟨carries, alone⟩
  · rintro ⟨carries, alone⟩
    exact ⟨⟨tag, here, carries⟩, by rwa [before]⟩

/-- One more tag is the first with an id if no other has it, and changes nothing about the others. -/
theorem first_concat {tags : List Tag} {tag : Tag} {id : String} {place : Nat} :
    First (tags ++ [tag]) id place ↔ First tags id place ∨
      place = tags.length ∧ tag.Carries id ∧ ∀ earlier ∈ tags, ¬earlier.Carries id := by
  rcases Nat.lt_trichotomy place tags.length with inside | rfl | outside
  · have here : (tags ++ [tag])[place]? = tags[place]? := List.getElem?_append_left inside
    have before : (tags ++ [tag]).take place = tags.take place := List.take_append_of_le_length (Nat.le_of_lt inside)
    have kept : First (tags ++ [tag]) id place ↔ First tags id place := by
      constructor
      · rintro ⟨carries, alone⟩
        exact ⟨here ▸ carries, before ▸ alone⟩
      · rintro ⟨carries, alone⟩
        exact ⟨here.symm ▸ carries, before.symm ▸ alone⟩
    simp [kept, Nat.ne_of_lt inside]
  · rw [first_append]
    constructor
    · exact fun last => .inr ⟨rfl, last⟩
    · rintro (first | last)
      · exact absurd first.place_lt (Nat.lt_irrefl _)
      · exact last.2
  · constructor
    · intro first
      have bound := first.place_lt
      rw [List.length_append, List.length_singleton] at bound
      omega
    · rintro (first | ⟨rfl, _⟩)
      · exact absurd first.place_lt (Nat.lt_asymm outside)
      · exact absurd outside (Nat.lt_irrefl _)

private theorem exists_first {tags : List Tag} {id : String} :
    (∃ place, First tags id place) ↔ ∃ tag ∈ tags, tag.Carries id := by
  constructor
  · rintro ⟨place, ⟨tag, found, carries⟩, _⟩
    exact ⟨tag, List.mem_of_getElem? found, carries⟩
  · induction tags using List.reverseRecOn with
    | nil =>
      rintro ⟨tag, member, _⟩
      cases member
    | append_singleton tags tag ih =>
      rintro ⟨found, member, carries⟩
      by_cases known : ∃ earlier ∈ tags, earlier.Carries id
      · obtain ⟨place, first⟩ := ih known
        exact ⟨place, first_concat.mpr (.inl first)⟩
      · rcases List.mem_append.mp member with old | own
        · exact absurd ⟨found, old, carries⟩ known
        · rw [List.mem_singleton.mp own] at carries
          exact ⟨_, first_concat.mpr (.inr ⟨rfl, carries, fun earlier old has => known ⟨earlier, old, has⟩⟩)⟩

namespace Index

/-- An index counts tags that can all be read, and lists every id where it is carried first. -/
structure Covers (tags : List Tag) (index : Index) : Prop where
  count : index.tags = tags.length
  read : ∀ tag ∈ tags, ∃ marks, Marks.ofTag tag = .ok marks
  listed : ∀ id place, (∃ element ∈ index.elements, element.id = id ∧ element.place = place) ↔ First tags id place

theorem covers_empty : Covers [] empty := by
  refine ⟨rfl, fun tag member => (nomatch member), fun id place => ⟨?_, fun first => ?_⟩⟩
  · rintro ⟨element, member, _⟩
    cases member
  · exact absurd first.place_lt (Nat.not_lt_zero _)

theorem Covers.lookup_isSome_iff {tags : List Tag} {index : Index} (covers : index.Covers tags) (sound : index.Sound)
    (id : String) : (index.positions.lookup id).isSome = true ↔ ∃ tag ∈ tags, tag.Carries id := by
  have known : (index.positions.lookup id).isSome = true ↔ id ∈ index.elements.map Element.id := by
    rw [← not_iff_not, Option.not_isSome_iff_eq_none, sound.located.lookup_eq_none]
  rw [known, ← exists_first, List.mem_map]
  constructor
  · rintro ⟨element, member, same⟩
    exact ⟨element.place, (covers.listed id _).mp ⟨element, member, same, rfl⟩⟩
  · rintro ⟨place, first⟩
    obtain ⟨element, member, same, _⟩ := (covers.listed id place).mpr first
    exact ⟨element, member, same⟩

private theorem covers_addTag {tags : List Tag} {index next : Index} {tag : Tag} (covers : index.Covers tags)
    (sound : index.Sound) (added : index.addTag tag = .ok next) : next.Covers (tags ++ [tag]) := by
  obtain ⟨marks, size, read, _, rfl⟩ := addTag_eq_ok.mp added
  have carries := Marks.id_eq_some_iff read
  refine ⟨by rw [List.length_append, covers.count]; rfl, fun other member => ?_, fun id place => ?_⟩
  · rcases List.mem_append.mp member with old | own
    · exact covers.read other old
    · exact List.mem_singleton.mp own ▸ ⟨marks, read⟩
  rw [first_concat, ← covers.listed]
  change (∃ element ∈ (index.list tag marks).elements, _) ↔ _
  unfold list
  split
  · next unnamed =>
    have carries_none : ¬tag.Carries id := by
      rw [← carries, unnamed]
      exact nofun
    simp [carries_none]
  · next own named =>
    have carries_own : tag.Carries id ↔ own = id := by
      rw [← carries, named]
      exact Option.some_inj
    split
    · next known =>
      have taken := (covers.lookup_isSome_iff sound own).mp known
      rw [carries_own]
      refine ⟨.inl, fun either => either.resolve_right ?_⟩
      rintro ⟨_, rfl, fresh⟩
      obtain ⟨earlier, member, has⟩ := taken
      exact fresh earlier member has
    · next unknown =>
      have fresh : ∀ earlier ∈ tags, ¬earlier.Carries own := fun earlier member has =>
        unknown ((covers.lookup_isSome_iff sound own).mpr ⟨earlier, member, has⟩)
      simp only [carries_own, List.mem_append, List.mem_singleton, or_and_right, exists_or, exists_eq_left]
      refine or_congr_right ⟨?_, ?_⟩
      · rintro ⟨rfl, rfl⟩
        exact ⟨covers.count, rfl, fresh⟩
      · rintro ⟨rfl, rfl, _⟩
        exact ⟨rfl, covers.count⟩

theorem covers_foldlM {tags more : List Tag} {index last : Index} (covers : index.Covers tags) (sound : index.Sound)
    (run : more.foldlM addTag index = .ok last) : last.Covers (tags ++ more) := by
  induction more generalizing tags index with
  | nil =>
    cases run
    rwa [List.append_nil]
  | cons tag more ih =>
    obtain ⟨next, added, rest⟩ := bind_eq_ok.mp run
    have all := ih (covers_addTag covers sound added) (sound_addTag sound added) rest
    rwa [List.append_assoc] at all

end Index

/-- What was found in a source when a drawing was read from it. -/
structure ReadFrom (drawing : Drawing) (source : String) (found : List Event) (index : Index) : Prop where
  scanned : Event.scan source.toList = ⟨found, none⟩
  run : found.foldlM Index.add .empty = .ok index
  covers : index.Covers (Event.tags found)
  source : drawing.source = source
  elements : drawing.elements = index.elements
  inStep : drawing.InStep
  unwritten : drawing.rewrites = []

theorem exists_readFrom {source : String} {drawing : Drawing} (parsed : parse source = .ok drawing) :
    ∃ found index, drawing.ReadFrom source found index := by
  obtain ⟨inStep, unwritten⟩ := inStep_parsed parsed
  obtain ⟨found, index, size, scanned, run, _, rfl⟩ := parse_eq_ok.mp parsed
  have tags := run
  rw [foldlM_add_eq] at tags
  exact ⟨found, index, scanned, run,
    Index.covers_foldlM Index.covers_empty Index.sound_empty tags, rfl, rfl, inStep, unwritten⟩

end Drawing
end EnvelopeWarp
