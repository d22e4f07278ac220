import EnvelopeWarp.Proofs.LegibleEvents
import EnvelopeWarp.Drawing.Render

/-! Tags with other path data. A tag whose attributes were read is written with the same attributes but for its path
data, each value between double quotes. It says the same to a drawing, except for the path data, and it can be read
back in the place of the old tag. -/

namespace EnvelopeWarp

namespace Drawing

private theorem keyed_dataKey : Attribute.Keyed dataKey :=
  ⟨'d', [], rfl, rfl, fun _ member => nomatch member⟩

private theorem plain_dataKey : ∀ c ∈ dataKey, ¬Event.Quotes c ∧ c ≠ '>' := by
  have single : dataKey = ['d'] := rfl
  intro c member
  rw [single, List.mem_singleton] at member
  rw [member]
  decide

theorem any_dataKey {items : List Attribute} :
    (items.any fun item => item.key == dataKey) = true ↔ dataKey ∈ items.map Attribute.key := by
  simp

theorem keys_withData (data : List Char) (items : List Attribute) :
    (withData data items).map Attribute.key =
      if dataKey ∈ items.map Attribute.key then items.map Attribute.key else items.map Attribute.key ++ [dataKey] := by
  unfold withData
  by_cases known : dataKey ∈ items.map Attribute.key
  · rw [if_pos (any_dataKey.mpr known), if_pos known, List.map_map]
    apply List.map_congr_left
    intro item _
    rw [Function.comp_apply]
    split
    · next same => exact (beq_iff_eq.mp same).symm
    · rfl
  · rw [if_neg (mt any_dataKey.mp known), if_neg known, List.map_append]
    rfl

private theorem distinct_withData {items : List Attribute} (distinct : (items.map Attribute.key).Nodup)
    (data : List Char) : ((withData data items).map Attribute.key).Nodup := by
  rw [keys_withData]
  split
  · exact distinct
  · next unknown =>
    refine List.nodup_append.mpr ⟨distinct, List.pairwise_singleton _ _, fun key old own member same => ?_⟩
    rw [List.mem_singleton.mp member] at same
    exact unknown (same ▸ old)

private theorem of_mem_withData (property : List Char → Prop) {items : List Attribute}
    (all : ∀ item ∈ items, property item.key) (own : property dataKey) {data : List Char} :
    ∀ item ∈ withData data items, property item.key := by
  intro item member
  have named := List.mem_map_of_mem (f := Attribute.key) member
  rw [keys_withData] at named
  split at named
  · obtain ⟨old, inside, same⟩ := List.mem_map.mp named
    exact same ▸ all old inside
  · rcases List.mem_append.mp named with old | own_name
    · obtain ⟨old, inside, same⟩ := List.mem_map.mp old
      exact same ▸ all old inside
    · exact List.mem_singleton.mp own_name ▸ own

private theorem withData_ne_nil (data : List Char) (items : List Attribute) : withData data items ≠ [] := by
  intro empty
  have names := keys_withData data items
  rw [empty] at names
  split at names
  · next known =>
    rw [← names] at known
    cases known
  · exact List.append_ne_nil_of_right_ne_nil _ (List.cons_ne_nil _ _) names.symm

theorem requoted_ofValue (key data : List Char) : (Attribute.ofValue key data).requoted = Attribute.ofValue key data :=
  congrArg (Attribute.mk key) (Reference.requote_of_quote_not_mem (Reference.quote_not_mem_escape data))

theorem value_ofValue (key data : List Char) : (Attribute.ofValue key data).value = .ok data :=
  Reference.unescape_escape data

private theorem readValue_requoted {item : Attribute} {value : Option String} (read : readValue item = .ok value) :
    readValue item.requoted = .ok value := by
  unfold readValue at read ⊢
  unfold Attribute.value at read ⊢
  split at read
  · next content found =>
    have again : Reference.unescape item.requoted.raw = .ok content := Reference.unescape_requote found
    rw [again]
    exact read
  · cases read

namespace Marks

def withData (marks : Marks) (data : Option String) : Marks :=
  { marks with data := data }

/-- An attribute that is not path data adds the same whatever the path data is, also between other quotes. -/
theorem add_other {marks next : Marks} {item : Attribute} (other : item.key ≠ dataKey)
    (added : marks.add item = .ok next) (data : Option String) :
    (marks.withData data).add item.requoted = .ok (next.withData data) := by
  have key : item.requoted.key = item.key := rfl
  have no_data : item.key ≠ "d".toList := other
  unfold add at added ⊢
  rw [key]
  simp only [if_neg no_data] at added ⊢
  split at added
  · next is_id =>
    obtain ⟨value, read, same⟩ := bind_eq_ok.mp added
    cases same
    rw [if_pos is_id]
    exact bind_eq_ok.mpr ⟨value, readValue_requoted read, rfl⟩
  split at added
  · next no_id is_width =>
    obtain ⟨value, read, same⟩ := bind_eq_ok.mp added
    cases same
    rw [if_neg no_id, if_pos is_width]
    exact bind_eq_ok.mpr ⟨value, readValue_requoted read, rfl⟩
  split at added
  · next no_id no_width is_height =>
    obtain ⟨value, read, same⟩ := bind_eq_ok.mp added
    cases same
    rw [if_neg no_id, if_neg no_width, if_pos is_height]
    exact bind_eq_ok.mpr ⟨value, readValue_requoted read, rfl⟩
  · next no_id no_width no_height =>
    cases added
    rw [if_neg no_id, if_neg no_width, if_neg no_height]
    rfl

private theorem add_dataKey {item : Attribute} (own : item.key = dataKey) (marks : Marks) :
    marks.add item = (readValue item).bind fun value => .ok (marks.withData value) := by
  have no_id : item.key ≠ "id".toList := by
    rw [own]
    decide
  have is_data : item.key = "d".toList := own
  unfold add
  rw [if_neg no_id, if_pos is_data]
  rfl

private theorem add_ofValue (marks : Marks) (data : List Char) :
    marks.add (Attribute.ofValue dataKey data).requoted = .ok (marks.withData (some (String.ofList data))) := by
  have read : readValue (Attribute.ofValue dataKey data) = .ok (some (String.ofList data)) := by
    unfold readValue
    rw [value_ofValue]
  rw [requoted_ofValue, add_dataKey rfl, read]
  rfl

def renewed (data : List Char) (item : Attribute) : Attribute :=
  if item.key == dataKey then Attribute.ofValue dataKey data else item

theorem map_renewed {items : List Attribute} (others : ∀ item ∈ items, item.key ≠ dataKey) (data : List Char) :
    items.map (renewed data) = items :=
  (List.map_congr_left fun item member => if_neg (mt beq_iff_eq.mp (others item member))).trans (List.map_id items)

/-- Attributes with other path data add the same but for that, whatever the path data was before. -/
theorem foldlM_renewed {items : List Attribute} {marks last : Marks} (run : items.foldlM add marks = .ok last)
    (data : List Char) (before : Option String) :
    ((items.map (renewed data)).map Attribute.requoted).foldlM add (marks.withData before) =
      .ok (last.withData (if dataKey ∈ items.map Attribute.key then some (String.ofList data) else before)) := by
  induction items generalizing marks before with
  | nil =>
    cases run
    rfl
  | cons item items ih =>
    obtain ⟨next, added, rest⟩ := bind_eq_ok.mp run
    simp only [List.map_cons, List.foldlM_cons, List.mem_cons]
    by_cases own : item.key = dataKey
    · have new : renewed data item = Attribute.ofValue dataKey data := if_pos (beq_iff_eq.mpr own)
      rw [add_dataKey own] at added
      obtain ⟨value, _, same⟩ := bind_eq_ok.mp added
      cases same
      have later := ih rest (some (String.ofList data))
      rw [ite_self] at later
      rw [new, add_ofValue, if_pos (.inl own.symm)]
      exact later
    · have kept : renewed data item = item := if_neg (mt beq_iff_eq.mp own)
      rw [kept, add_other own added]
      simp only [Ne.symm own, false_or]
      exact ih rest before

private theorem foldlM_withData {items : List Attribute} {marks last : Marks} (run : items.foldlM add marks = .ok last)
    (data : List Char) : ((Drawing.withData data items).map Attribute.requoted).foldlM add marks =
      .ok (last.withData (some (String.ofList data))) := by
  have reread := foldlM_renewed run data marks.data
  unfold Drawing.withData
  by_cases known : dataKey ∈ items.map Attribute.key
  · rw [if_pos known] at reread
    rw [if_pos (any_dataKey.mpr known)]
    exact reread
  · have others : ∀ item ∈ items, item.key ≠ dataKey := fun item member own =>
      known (own ▸ List.mem_map_of_mem member)
    rw [if_neg known, map_renewed others] at reread
    rw [if_neg (mt any_dataKey.mp known), List.map_append, List.foldlM_append]
    refine bind_eq_ok.mpr ⟨_, reread, ?_⟩
    rw [List.map_singleton, List.foldlM_cons, add_ofValue]
    rfl

end Marks

theorem attributes_withData {tag : Tag} {items : List Attribute} (attributes : tag.attributes = ⟨items, none⟩)
    (data : List Char) : (Tag.ofAttributes tag.name (withData data items)).attributes =
      ⟨(withData data items).map Attribute.requoted, none⟩ := by
  obtain ⟨lists, _, distinct⟩ := Tag.lists_of_attributesFrom attributes
  have keyed : ∀ item ∈ withData data items, Attribute.Keyed item.key :=
    of_mem_withData Attribute.Keyed (Attribute.keyed_of_lists lists) keyed_dataKey
  exact Tag.attributes_ofAttributes keyed (distinct_withData distinct data) tag.name

/-- A tag that was read has an edited form, under the same name. A drawing reads the new path data in it, and
everything else as before. -/
theorem tagWithData_spec {tag : Tag} {marks : Marks} (read : Marks.ofTag tag = .ok marks) (data : List Char) :
    ∃ items, tag.attributes = ⟨items, none⟩ ∧
      tagWithData data tag = .ok (Tag.ofAttributes tag.name (withData data items)) ∧
      Marks.ofTag (Tag.ofAttributes tag.name (withData data items)) =
        .ok (marks.withData (some (String.ofList data))) := by
  obtain ⟨items, attributes, run⟩ := Reading.fold_eq_ok.mp read
  have again := attributes_withData attributes data
  have all : tag.attributes.all = .ok items := Reading.all_eq_ok.mpr (by rw [attributes]; exact ⟨rfl, rfl⟩)
  refine ⟨items, attributes, ?_, Reading.fold_eq_ok.mpr ⟨_, again, Marks.foldlM_withData run data⟩⟩
  unfold tagWithData
  rw [all]

end Drawing

namespace Event
open Drawing (dataKey withData)

private theorem kept_slash {text : List Char} : Kept (text ++ ['/']) ↔ Kept text := by
  unfold Kept
  rw [inside_append, quoted_append]
  constructor
  · rintro ⟨⟨inside, _⟩, closed⟩
    refine ⟨inside, ?_⟩
    cases state : quoted none text with
    | none => rfl
    | some mark =>
      have marks := quotes_of_quoted state
      have slash : ∀ c ∈ ['/'], ¬Quotes c := fun c member => by
        rw [List.mem_singleton.mp member]
        decide
      rw [state, (quoted_of_plain slash).2 mark marks] at closed
      cases closed
  · rintro ⟨inside, closed⟩
    rw [closed]
    exact ⟨⟨inside, fun ends => (nomatch ends.2), trivial⟩, rfl⟩

/-- No quote is open behind the name of a tag whose attributes were read. -/
theorem kept_name {tag : Tag} {items : List Attribute} (kept : Kept tag.text)
    (lists : Attribute.Lists tag.tail items) (unquoted : Unquoted items) :
    Kept tag.name ∧ Inside none tag.tail := by
  obtain ⟨inside, closed⟩ := kept
  unfold Tag.text at inside closed
  obtain ⟨inside_name, inside_tail⟩ := inside_append.mp inside
  rw [quoted_append] at closed
  cases state : quoted none tag.name with
  | none =>
    rw [state] at inside_tail
    exact ⟨⟨inside_name, state⟩, inside_tail⟩
  | some mark =>
    rw [state] at closed
    exact absurd closed ((quoted_of_lists lists unquoted).2 mark (quotes_of_quoted state))

private theorem kept_withData {tag : Tag} {items : List Attribute} (kept : Kept tag.text)
    (lists : Attribute.Lists tag.tail items) (unquoted : Unquoted items) (data : List Char) :
    Kept (Tag.ofAttributes tag.name (withData data items)).text := by
  obtain ⟨⟨inside, closed⟩, inside_tail⟩ := kept_name kept lists unquoted
  have bracketless := bracket_not_mem_key lists unquoted inside_tail
  have all_unquoted : Unquoted (withData data items) :=
    Drawing.of_mem_withData (fun key => ∀ c ∈ key, ¬Quotes c) unquoted fun c member =>
      (Drawing.plain_dataKey c member).1
  have all_bracketless : ∀ item ∈ withData data items, '>' ∉ item.key :=
    Drawing.of_mem_withData (fun key => '>' ∉ key) bracketless fun member =>
      (Drawing.plain_dataKey '>' member).2 rfl
  obtain ⟨closed_after, inside_after⟩ := inside_ofAttributes all_unquoted all_bracketless
  unfold Kept Tag.text Tag.ofAttributes
  rw [inside_append, quoted_append, closed]
  exact ⟨⟨inside, inside_after⟩, closed_after⟩

private theorem text_of_ne_nil {items : List Attribute} (some_item : items ≠ []) :
    ∃ inner, items.flatMap Attribute.text = ' ' :: inner ++ ['\x22'] := by
  induction items with
  | nil => exact absurd rfl some_item
  | cons item items ih =>
    have first : item.text = ' ' :: (item.key ++ '=' :: '\x22' :: item.raw.flatMap Attribute.requoteChar) ++ ['\x22'] := by
      simp [Attribute.text]
    rw [List.flatMap_cons, first]
    cases items with
    | nil => exact ⟨_, List.append_nil _⟩
    | cons second items =>
      obtain ⟨inner, others⟩ := ih (List.cons_ne_nil _ _)
      rw [others]
      exact ⟨_, (List.append_assoc _ _ _).symm⟩

private theorem ofText_ofAttributes {name : List Char} (plain : ∀ c ∈ name, Text.isMarkupBlank c = false)
    {items : List Attribute} (some_item : items ≠ []) :
    Tag.ofText (Tag.ofAttributes name items).text = Tag.ofAttributes name items := by
  obtain ⟨inner, shape⟩ := text_of_ne_nil some_item
  have ended : ∀ c ∈ (' ' :: inner ++ ['\x22']).head?, Text.isMarkupBlank c = true :=
    fun c head => Option.some.inj head ▸ rfl
  unfold Tag.ofText Tag.text Tag.ofAttributes
  simp only [shape, takeWhile_until plain ended, dropWhile_until plain ended]

private theorem plain_name {tag : Tag} (cut : Tag.ofText tag.text = tag) :
    ∀ c ∈ tag.name, Text.isMarkupBlank c = false := by
  rw [← cut]
  exact plain_takeWhile Text.isMarkupBlank tag.text

private theorem starts_ofAttributes {tag : Tag} {items : List Attribute} (rest : List Char)
    (starts : Starts (tag.text ++ rest))
    (some_item : items ≠ []) : Starts ((Tag.ofAttributes tag.name items).text ++ rest) := by
  obtain ⟨inner, shape⟩ := text_of_ne_nil some_item
  unfold Starts Tag.text Tag.ofAttributes
  simp only [shape]
  unfold Starts Tag.text at starts
  cases named : tag.name with
  | nil =>
    intro c head
    cases head
    decide
  | cons d name =>
    rw [named] at starts
    exact starts

/-- An event that starts an element can be written with other path data. -/
theorem writable_withData {event : Event} {tag : Tag} {items : List Attribute} (writable : event.Writable)
    (starts : event.tag? = some tag) (lists : Attribute.Lists tag.tail items) (unquoted : Unquoted items)
    (data : List Char) : (event.withTag (Tag.ofAttributes tag.name (withData data items))).Writable := by
  have some_item := Drawing.withData_ne_nil data items
  cases event with
  | opening old =>
    cases starts
    obtain ⟨⟨kept, head⟩, _, cut⟩ := writable
    obtain ⟨inner, shape⟩ := text_of_ne_nil some_item
    refine ⟨⟨kept_withData kept lists unquoted data, ?_⟩, ?_, ofText_ofAttributes (plain_name cut) some_item⟩
    · have start := starts_ofAttributes [] (by rwa [List.append_nil]) some_item
      rwa [List.append_nil] at start
    · unfold Tag.text Tag.ofAttributes
      simp only [shape]
      rw [← List.append_assoc, List.getLast?_concat]
      decide
  | single old =>
    cases starts
    obtain ⟨⟨kept, head⟩, cut⟩ := writable
    refine ⟨⟨kept_slash.mpr (kept_withData (kept_slash.mp kept) lists unquoted data), ?_⟩,
      ofText_ofAttributes (plain_name cut) some_item⟩
    exact starts_ofAttributes _ head some_item
  | _ => cases starts

end Event
end EnvelopeWarp
