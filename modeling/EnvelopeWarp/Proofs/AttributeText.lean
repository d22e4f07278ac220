import EnvelopeWarp.Proofs.ReferenceText
import EnvelopeWarp.Markup.Scan

/-! What stands behind the name of a tag, as a list of attributes with blanks around them. Reading finds the
attributes of such a text in order, and a text that is read without a fault is such a text. -/

namespace EnvelopeWarp
open Text

def Blanks (text : List Char) : Prop :=
  ∀ c ∈ text, isMarkupBlank c = true

namespace Attribute

/-- A name as it can be read: its first character is no blank, and nothing after that ends it. -/
def Keyed (key : List Char) : Prop :=
  ∃ first others, key = first :: others ∧ isMarkupBlank first = false ∧ ∀ c ∈ others, Tag.isKeyEnd c = false

/-- A text lists attributes. -/
inductive Lists : List Char → List Attribute → Prop
  | nil {blanks : List Char} (blank : Blanks blanks) : Lists blanks []
  | cons {blanks key gap space raw rest : List Char} {quote : Char} {items : List Attribute}
      (blank : Blanks blanks) (keyed : Keyed key) (gap_blank : Blanks gap) (space_blank : Blanks space)
      (quotes : quote = '\x22' ∨ quote = '\x27') (absent : quote ∉ raw) (others : Lists rest items) :
    Lists (blanks ++ key ++ gap ++ '=' :: (space ++ quote :: (raw ++ quote :: rest))) (⟨key, raw⟩ :: items)

theorem keyed_of_lists {text : List Char} {items : List Attribute} (lists : Lists text items) :
    ∀ item ∈ items, Keyed item.key := by
  induction lists with
  | nil blank =>
    intro item member
    cases member
  | cons blank keyed gap_blank space_blank quotes absent others ih =>
    intro item member
    rcases List.mem_cons.mp member with rfl | later
    · exact keyed
    · exact ih item later

end Attribute

namespace Tag
open Attribute

private theorem skipBlanks_append {blanks rest : List Char} (blank : Blanks blanks) :
    skipBlanks (blanks ++ rest) = skipBlanks rest :=
  List.dropWhile_append_of_pos blank

theorem exists_blanks (text : List Char) : ∃ blanks, Blanks blanks ∧ text = blanks ++ skipBlanks text :=
  ⟨text.takeWhile isMarkupBlank, fun c member => List.all_eq_true.mp List.all_takeWhile c member,
    List.takeWhile_append_dropWhile.symm⟩

private theorem not_blank_of_skipBlanks {text rest : List Char} {c : Char} (ahead : skipBlanks text = c :: rest) :
    isMarkupBlank c = false := by
  have head := List.head?_dropWhile_not isMarkupBlank text
  unfold skipBlanks at ahead
  rw [ahead] at head
  simpa using head

private theorem splitAt?_of_not_mem {mark : Char} {before : List Char} (absent : mark ∉ before) (after : List Char) :
    splitAt? mark (before ++ mark :: after) = some (before, after) := by
  induction before with
  | nil => simp [splitAt?]
  | cons c before ih =>
    rw [List.mem_cons, not_or] at absent
    rw [List.cons_append, splitAt?, if_neg (Ne.symm absent.1), ih absent.2]
    rfl

private theorem not_mem_of_splitAt? {mark : Char} {text before after : List Char}
    (found : splitAt? mark text = some (before, after)) : mark ∉ before := by
  induction text generalizing before with
  | nil => cases found
  | cons c rest ih =>
    simp only [splitAt?] at found
    split at found
    · cases found
      exact List.not_mem_nil
    · next other =>
      obtain ⟨⟨first, last⟩, step, same⟩ := Option.map_eq_some_iff.mp found
      cases same
      rw [List.mem_cons, not_or]
      exact ⟨Ne.symm other, ih step⟩

private theorem takeValue_eq {total : Nat} {space raw rest : List Char} {quote : Char} (blank : Blanks space)
    (quotes : quote = '\x22' ∨ quote = '\x27') (absent : quote ∉ raw) :
    takeValue total (space ++ quote :: (raw ++ quote :: rest)) = .ok (raw, rest) := by
  have plain : isMarkupBlank quote = false := by rcases quotes with rfl | rfl <;> rfl
  have ahead : skipBlanks (space ++ quote :: (raw ++ quote :: rest)) = quote :: (raw ++ quote :: rest) := by
    rw [skipBlanks_append blank, skipBlanks, List.dropWhile_cons_of_neg (by simp [plain])]
  simp only [takeValue, ahead, if_pos quotes, splitAt?_of_not_mem absent]

private theorem of_takeValue {total : Nat} {text raw rest : List Char}
    (taken : takeValue total text = .ok (raw, rest)) :
    ∃ space quote, Blanks space ∧ (quote = '\x22' ∨ quote = '\x27') ∧ quote ∉ raw ∧
      text = space ++ quote :: (raw ++ quote :: rest) := by
  obtain ⟨space, blank, whole⟩ := exists_blanks text
  unfold takeValue at taken
  split at taken
  · cases taken
  · next quote after ahead =>
    split at taken
    · next quotes =>
      split at taken
      · next parts found =>
        cases taken
        rw [ahead, splitAt?_append found] at whole
        exact ⟨space, quote, blank, quotes, not_mem_of_splitAt? found, whole⟩
      · cases taken
    · cases taken

private theorem takeAttribute_eq {total : Nat} {seen : Seen} {key gap space raw rest : List Char} {first quote : Char}
    (others : ∀ c ∈ key, isKeyEnd c = false) (gap_blank : Blanks gap) (space_blank : Blanks space)
    (quotes : quote = '\x22' ∨ quote = '\x27') (absent : quote ∉ raw) (fresh : seen.lookup (first :: key) = none) :
    takeAttribute total seen first (key ++ (gap ++ '=' :: (space ++ quote :: (raw ++ quote :: rest)))) =
      .ok (⟨first :: key, raw⟩, rest) := by
  have ended : ∀ c ∈ (gap ++ '=' :: (space ++ quote :: (raw ++ quote :: rest))).head?, isKeyEnd c = true := by
    intro c head
    cases gap with
    | nil =>
      cases head
      rfl
    | cons d gap =>
      cases head
      have blank := gap_blank c (.head _)
      simp [isKeyEnd, blank]
  have equals : skipBlanks (gap ++ '=' :: (space ++ quote :: (raw ++ quote :: rest))) =
      '=' :: (space ++ quote :: (raw ++ quote :: rest)) := dropWhile_of_free gap_blank (Free.cons rfl)
  simp only [takeAttribute, takeWhile_until others ended, dropWhile_until others ended, equals, fresh,
    takeValue_eq space_blank quotes absent]

private theorem attributesFrom_blank {text : List Char} (blank : skipBlanks text = []) (total : Nat) (seen : Seen) :
    attributesFrom total seen text = .finished := by
  rw [attributesFrom]
  split
  · rfl
  · next first rest ahead =>
    rw [blank] at ahead
    cases ahead

private theorem attributesFrom_step {total : Nat} {seen : Seen} {text rest after : List Char} {first : Char}
    {item : Attribute}
    (ahead : skipBlanks text = first :: rest) (step : takeAttribute total seen first rest = .ok (item, after)) :
    attributesFrom total seen text =
      (attributesFrom total ((item.key, total - Text.byteLength (first :: rest)) :: seen) after).cons item := by
  rw [attributesFrom]
  split
  · next nothing =>
    rw [ahead] at nothing
    cases nothing
  · next c tail same =>
    rw [ahead] at same
    cases same
    split
    · next fault failed =>
      rw [step] at failed
      cases failed
    · next taken behind same =>
      rw [step] at same
      cases same
      rfl

/-- The attributes that a text lists are read one by one, if no name is read twice. -/
theorem attributesFrom_of_lists {text : List Char} {items : List Attribute} (lists : Lists text items) (total : Nat)
    {seen : Seen} (fresh : ∀ item ∈ items, seen.lookup item.key = none)
    (distinct : (items.map Attribute.key).Nodup) : attributesFrom total seen text = ⟨items, none⟩ := by
  induction lists generalizing seen with
  | @nil blanks blank =>
    have nothing : skipBlanks blanks = [] := by
      have skipped := dropWhile_of_free blank (Free.nil _)
      rwa [List.append_nil] at skipped
    exact attributesFrom_blank nothing total seen
  | @cons blanks key gap space raw rest quote items blank keyed gap_blank space_blank quotes absent others ih =>
    obtain ⟨first, more, rfl, plain, inside⟩ := keyed
    have step : takeAttribute total seen first (more ++ (gap ++ '=' :: (space ++ quote :: (raw ++ quote :: rest)))) =
        .ok (⟨first :: more, raw⟩, rest) :=
      takeAttribute_eq inside gap_blank space_blank quotes absent (fresh _ (.head _))
    have ahead : skipBlanks (blanks ++ (first :: more) ++ gap ++ '=' :: (space ++ quote :: (raw ++ quote :: rest))) =
        first :: (more ++ (gap ++ '=' :: (space ++ quote :: (raw ++ quote :: rest)))) := by
      simp only [List.append_assoc, List.cons_append]
      exact dropWhile_of_free blank (Free.cons plain)
    rw [List.map_cons, List.nodup_cons] at distinct
    rw [attributesFrom_step ahead step, ih ?_ distinct.2]
    · rfl
    · intro item member
      have other : (item.key == first :: more) = false := by
        rw [beq_eq_false_iff_ne]
        intro equal
        exact distinct.1 (List.mem_map.mpr ⟨item, member, equal⟩)
      rw [List.lookup_cons, other]
      exact fresh item (.tail _ member)

private theorem of_takeAttribute {total : Nat} {seen : Seen} {first : Char} {text rest : List Char} {item : Attribute}
    (taken : takeAttribute total seen first text = .ok (item, rest)) :
    seen.lookup item.key = none ∧ ∃ others gap space quote, item.key = first :: others ∧
      (∀ c ∈ others, isKeyEnd c = false) ∧ Blanks gap ∧ Blanks space ∧ (quote = '\x22' ∨ quote = '\x27') ∧
      quote ∉ item.raw ∧ text = others ++ (gap ++ '=' :: (space ++ quote :: (item.raw ++ quote :: rest))) := by
  have split : text = (text.takeWhile fun c => !isKeyEnd c) ++ text.dropWhile fun c => !isKeyEnd c :=
    List.takeWhile_append_dropWhile.symm
  obtain ⟨gap, gap_blank, after_key⟩ := exists_blanks (text.dropWhile fun c => !isKeyEnd c)
  have inside := plain_takeWhile isKeyEnd text
  unfold takeAttribute at taken
  simp only at taken
  split at taken
  · next after equals =>
    split at taken
    · cases taken
    · next fresh =>
      split at taken
      · next raw after_value value =>
        cases taken
        obtain ⟨space, quote, space_blank, quotes, absent, shape⟩ := of_takeValue value
        rw [equals, shape] at after_key
        rw [after_key] at split
        exact ⟨fresh, _, gap, space, quote, rfl, inside, gap_blank, space_blank, quotes, absent, split⟩
      · cases taken
  · cases taken

/-- A text that is read without a fault lists what is found, and no name twice. -/
theorem lists_of_attributesFrom {total : Nat} {seen : Seen} {text : List Char} {items : List Attribute}
    (read : attributesFrom total seen text = ⟨items, none⟩) :
    Lists text items ∧ (∀ item ∈ items, seen.lookup item.key = none) ∧ (items.map Attribute.key).Nodup := by
  fun_induction attributesFrom total seen text generalizing items with
  | case1 seen text nothing =>
    cases read
    obtain ⟨blanks, blank, whole⟩ := exists_blanks text
    rw [nothing, List.append_nil] at whole
    exact ⟨.nil (whole ▸ blank), fun _ member => (nomatch member), .nil⟩
  | case2 => cases read
  | case3 seen text first rest ahead item after step ih =>
    obtain ⟨blanks, blank, whole⟩ := exists_blanks text
    obtain ⟨fresh, others, gap, space, quote, named, inside, gap_blank, space_blank, quotes, absent, shape⟩ :=
      of_takeAttribute step
    obtain ⟨items, rfl, rest_read⟩ := Reading.of_cons_finished read
    obtain ⟨lists, unseen, distinct⟩ := ih rest_read
    have keyed : Keyed item.key := ⟨first, others, named, not_blank_of_skipBlanks ahead, inside⟩
    have other : ∀ next ∈ items, next.key ≠ item.key ∧ seen.lookup next.key = none := by
      intro next member
      have absent := unseen next member
      rw [List.lookup_cons] at absent
      split at absent
      · cases absent
      · next different => exact ⟨by simpa using different, absent⟩
    refine ⟨?_, ?_, ?_⟩
    · have listed := Lists.cons blank keyed gap_blank space_blank quotes absent lists
      have front : text = blanks ++ item.key ++ gap ++ '=' :: (space ++ quote :: (item.raw ++ quote :: after)) := by
        rw [whole, ahead, shape, named]
        simp only [List.append_assoc, List.cons_append]
      rw [front]
      exact listed
    · intro next member
      rcases List.mem_cons.mp member with rfl | later
      · exact fresh
      · exact (other next later).2
    · rw [List.map_cons, List.nodup_cons]
      refine ⟨fun member => ?_, distinct⟩
      obtain ⟨next, inside, same⟩ := List.mem_map.mp member
      exact (other next inside).1 same

end Tag
end EnvelopeWarp
