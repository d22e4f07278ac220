import Mathlib.Data.List.DropRight
import EnvelopeWarp.Proofs.QuotedText

/-! Events as text. An event that was read is written so that it is read again, whatever follows it, except that
a run of text goes on until the next mark. So a list of events that was read is written as a text with the same
events, and an event may be replaced by another one that can be written. -/

namespace EnvelopeWarp
namespace Event

/-- The mark does not start within a text, also when the mark follows the text. -/
def Clear (mark : List Char) : List Char → Prop
  | [] => True
  | c :: rest => ¬mark <+: c :: rest ++ mark ∧ Clear mark rest

private theorem dropFront?_eq_none {mark text : List Char} : Text.dropFront? mark text = none ↔ ¬mark <+: text := by
  rw [Option.eq_none_iff_forall_not_mem]
  constructor
  · rintro absent ⟨after, rfl⟩
    exact absent after (Text.dropFront?_eq_some.mpr rfl)
  · intro absent after found
    exact absent ⟨after, (Text.dropFront?_eq_some.mp found).symm⟩

private theorem prefix_mark {mark text : List Char} (after : List Char) :
    mark <+: text ++ (mark ++ after) ↔ mark <+: text ++ mark := by
  rw [← List.append_assoc]
  constructor
  · intro starts
    exact List.prefix_of_prefix_length_le starts (List.prefix_append _ _) (by simp)
  · exact fun starts => starts.trans (List.prefix_append _ _)

private theorem until?_eq_some {mark text content after : List Char} (some_mark : mark ≠ []) :
    until? mark text = some (content, after) ↔ text = content ++ (mark ++ after) ∧ Clear mark content := by
  constructor
  · intro found
    induction text generalizing content with
    | nil => cases found
    | cons c rest ih =>
      rw [until?] at found
      split at found
      · next step =>
        cases found
        have whole := Text.dropFront?_eq_some.mp step
        exact ⟨whole, trivial⟩
      · next step =>
        obtain ⟨⟨first, last⟩, later, same⟩ := Option.map_eq_some_iff.mp found
        cases same
        obtain ⟨rfl, clear⟩ := ih later
        refine ⟨rfl, fun starts => ?_, clear⟩
        exact dropFront?_eq_none.mp step ((prefix_mark last).mpr starts)
  · rintro ⟨rfl, clear⟩
    induction content with
    | nil =>
      obtain ⟨c, others, rfl⟩ := List.exists_cons_of_ne_nil some_mark
      have found : Text.dropFront? (c :: others) (c :: others ++ after) = some after := Text.dropFront?_eq_some.mpr rfl
      rw [List.nil_append, List.cons_append, until?]
      rw [List.cons_append] at found
      rw [found]
    | cons c content ih =>
      have step : Text.dropFront? mark (c :: content ++ (mark ++ after)) = none :=
        dropFront?_eq_none.mpr fun starts => clear.1 ((prefix_mark after).mp starts)
      rw [List.cons_append] at step ⊢
      rw [until?, step, ih clear.2]
      rfl

/-- Every closing bracket of a text closes one that was opened in it or before it. -/
def Balanced : Nat → List Char → Prop
  | depth, [] => depth = 0
  | 0, c :: rest => c ≠ '>' ∧ Balanced (if c = '<' then 1 else 0) rest
  | outer + 1, c :: rest =>
    if c = '>' then Balanced outer rest else Balanced (if c = '<' then outer + 2 else outer + 1) rest

private theorem balanced_of_untilBalanced? {depth : Nat} {text content after : List Char}
    (found : untilBalanced? depth text = some (content, after)) :
    text = content ++ '>' :: after ∧ Balanced depth content := by
  induction text generalizing depth content with
  | nil => cases found
  | cons c rest ih =>
    rw [untilBalanced?.eq_def] at found
    simp only at found
    split at found
    · next closes =>
      cases depth with
      | zero =>
        cases found
        exact ⟨by rw [closes]; rfl, rfl⟩
      | succ outer =>
        obtain ⟨⟨first, last⟩, step, same⟩ := Option.map_eq_some_iff.mp found
        cases same
        obtain ⟨rfl, balanced⟩ := ih step
        refine ⟨rfl, ?_⟩
        rw [Balanced, if_pos closes]
        exact balanced
    · next other =>
      obtain ⟨⟨first, last⟩, step, same⟩ := Option.map_eq_some_iff.mp found
      cases same
      obtain ⟨rfl, balanced⟩ := ih step
      refine ⟨rfl, ?_⟩
      cases depth with
      | zero => exact ⟨other, balanced⟩
      | succ outer =>
        rw [Balanced, if_neg other]
        exact balanced

private theorem untilBalanced?_of_balanced {depth : Nat} {content : List Char} (balanced : Balanced depth content)
    (after : List Char) : untilBalanced? depth (content ++ '>' :: after) = some (content, after) := by
  induction content generalizing depth with
  | nil =>
    cases balanced
    rfl
  | cons c content ih =>
    rw [List.cons_append, untilBalanced?.eq_def]
    simp only
    cases depth with
    | zero =>
      rw [if_neg balanced.1, ih balanced.2]
      rfl
    | succ outer =>
      rw [Balanced] at balanced
      split at balanced
      · next closes =>
        rw [if_pos closes]
        simp only
        rw [ih balanced]
        rfl
      · next other =>
        rw [if_neg other, ih balanced]
        rfl

private theorem untilBalanced?_eq_some {depth : Nat} {text content after : List Char} :
    untilBalanced? depth text = some (content, after) ↔ text = content ++ '>' :: after ∧ Balanced depth content := by
  constructor
  · exact balanced_of_untilBalanced?
  · rintro ⟨rfl, balanced⟩
    exact untilBalanced?_of_balanced balanced after

private theorem balanced_of_blanks {blanks text : List Char} (blank : Blanks blanks)
    (balanced : Balanced 0 (blanks ++ text)) : Balanced 0 text := by
  induction blanks with
  | nil => exact balanced
  | cons c blanks ih =>
    have plain : c ≠ '<' := by
      rintro rfl
      cases blank '<' (.head _)
    obtain ⟨_, rest⟩ := balanced
    rw [if_neg plain] at rest
    exact ih (fun d member => blank d (.tail _ member)) rest

def Kept (content : List Char) : Prop :=
  Inside none content ∧ quoted none content = none

def Starts (content : List Char) : Prop :=
  ∀ c ∈ content.head?, c ≠ '!' ∧ c ≠ '/' ∧ c ≠ '?'

def Element (content : List Char) : Prop :=
  Kept content ∧ Starts content

/-- An event that is read again from what is written of it. -/
def Writable : Event → Prop
  | text content => content ≠ [] ∧ ∀ c ∈ content, isTextEnd c = false
  | reference name => ∀ c ∈ name, isReferenceEnd c = false
  | comment content => Clear "-->".toList content
  | data content => Clear "]]>".toList content
  | doctype content => Balanced 0 content ∧ content ≠ [] ∧ Tag.skipBlanks content = content
  | instruction content => content.head? ≠ some '>' ∧ Clear "?>".toList content
  | opening tag => Element tag.text ∧ tag.text.getLast? ≠ some '/' ∧ Tag.ofText tag.text = tag
  | single tag => Element (tag.text ++ ['/']) ∧ Tag.ofText tag.text = tag
  | closing name => Kept name ∧ closingName name = name

def Marked : Event → Prop
  | text _ => False
  | _ => True

/-- A run of text is at its end before a mark or nothing. -/
def Ended (after : List Char) : Prop :=
  ∀ c ∈ after.head?, isTextEnd c = true

theorem ended_write {event : Event} (marked : event.Marked) (after : List Char) : Ended (event.write ++ after) := by
  have bracket : ∀ rest, Ended ('<' :: rest) := fun rest c head => Option.some.inj head ▸ rfl
  cases event with
  | text content => exact marked.elim
  | reference name => exact fun c head => Option.some.inj head ▸ rfl
  | _ => exact bracket _

/-- The first event of a text, with what follows it. -/
def Takes (whole : List Char) (event : Event) (after : List Char) : Prop :=
  ∃ first rest, whole = first :: rest ∧ take first rest = .ok (event, after)

private theorem takes_text {content after : List Char} (some_char : content ≠ [])
    (run : ∀ c ∈ content, isTextEnd c = false)
    (ended : Ended after) : Takes (content ++ after) (text content) after := by
  obtain ⟨c, rest, rfl⟩ := List.exists_cons_of_ne_nil some_char
  have plain := run c (.head _)
  have inside : ∀ d ∈ rest, isTextEnd d = false := fun d member => run d (.tail _ member)
  simp only [isTextEnd, Bool.or_eq_false_iff, beq_eq_false_iff_ne] at plain
  refine ⟨c, rest ++ after, rfl, ?_⟩
  rw [take, if_neg plain.1, if_neg plain.2, takeWhile_until inside ended, dropWhile_until inside ended]

private theorem takes_reference {name : List Char} (inside : ∀ c ∈ name, isReferenceEnd c = false) (after : List Char) :
    Takes ((reference name).write ++ after) (reference name) after := by
  have ended : ∀ c ∈ (';' :: after).head?, isReferenceEnd c = true := fun c head => Option.some.inj head ▸ rfl
  have shape : (reference name).write ++ after = '&' :: (name ++ ';' :: after) := by
    change '&' :: name ++ [';'] ++ after = _
    simp
  have step : take '&' (name ++ ';' :: after) = .ok (reference name, after) := by
    change takeReference (name ++ ';' :: after) = _
    rw [takeReference, dropWhile_until inside ended, takeWhile_until inside ended]
    rfl
  exact ⟨_, _, shape, step⟩

private theorem takes_comment {content : List Char} (clear : Clear "-->".toList content) (after : List Char) :
    Takes ((comment content).write ++ after) (comment content) after := by
  have found : until? "-->".toList (content ++ ("-->".toList ++ after)) = some (content, after) :=
    (until?_eq_some (by decide)).mpr ⟨rfl, clear⟩
  have shape : (comment content).write ++ after = '<' :: '!' :: '-' :: '-' :: (content ++ ("-->".toList ++ after)) := by
    change "<!--".toList ++ content ++ "-->".toList ++ after = _
    rw [List.append_assoc, List.append_assoc]
    rfl
  have step : ∀ text, take '<' ('!' :: '-' :: '-' :: text) = takeComment text := fun _ => rfl
  refine ⟨_, _, shape, ?_⟩
  rw [step, takeComment, found]

private theorem takes_data {content : List Char} (clear : Clear "]]>".toList content) (after : List Char) :
    Takes ((data content).write ++ after) (data content) after := by
  have found : until? "]]>".toList (content ++ ("]]>".toList ++ after)) = some (content, after) :=
    (until?_eq_some (by decide)).mpr ⟨rfl, clear⟩
  have shape : (data content).write ++ after =
      '<' :: '!' :: '[' :: ("CDATA[".toList ++ (content ++ ("]]>".toList ++ after))) := by
    change "<![CDATA[".toList ++ content ++ "]]>".toList ++ after = _
    rw [List.append_assoc, List.append_assoc]
    rfl
  have step : ∀ text, take '<' ('!' :: '[' :: ("CDATA[".toList ++ text)) = takeData text := fun _ => rfl
  refine ⟨_, _, shape, ?_⟩
  rw [step, takeData, found]

private theorem takes_doctype {content : List Char} (balanced : Balanced 0 content) (named : content ≠ [])
    (trimmed : Tag.skipBlanks content = content) (after : List Char) :
    Takes ((doctype content).write ++ after) (doctype content) after := by
  have found : untilBalanced? 0 (' ' :: content ++ '>' :: after) = some (' ' :: content, after) :=
    untilBalanced?_eq_some.mpr ⟨rfl, by decide, balanced⟩
  have skipped : Tag.skipBlanks (' ' :: content) = content := trimmed
  have shape : (doctype content).write ++ after = '<' :: '!' :: ("DOCTYPE".toList ++ (' ' :: content ++ '>' :: after)) := by
    change "<!DOCTYPE ".toList ++ content ++ ['>'] ++ after = _
    rw [List.append_assoc, List.append_assoc]
    rfl
  have step : ∀ text, take '<' ('!' :: ("DOCTYPE".toList ++ text)) = takeDoctype text := fun _ => rfl
  refine ⟨_, _, shape, ?_⟩
  rw [step, takeDoctype, found]
  simp only [skipped]

private theorem takes_instruction {content : List Char} (other : content.head? ≠ some '>')
    (clear : Clear "?>".toList content)
    (after : List Char) : Takes ((instruction content).write ++ after) (instruction content) after := by
  have found : until? "?>".toList (content ++ ("?>".toList ++ after)) = some (content, after) :=
    (until?_eq_some (by decide)).mpr ⟨rfl, clear⟩
  have head : (content ++ ("?>".toList ++ after)).head? ≠ some '>' := by
    cases content with
    | nil => exact fun same => nomatch same
    | cons c content => exact other
  have shape : (instruction content).write ++ after = '<' :: '?' :: (content ++ ("?>".toList ++ after)) := by
    change "<?".toList ++ content ++ "?>".toList ++ after = _
    rw [List.append_assoc, List.append_assoc]
    rfl
  have step : ∀ text, take '<' ('?' :: text) = takeInstruction text := fun _ => rfl
  refine ⟨_, _, shape, ?_⟩
  rw [step, takeInstruction, if_neg head, found]

private theorem take_element {content : List Char} (element : Element content) (after : List Char) :
    take '<' (content ++ '>' :: after) =
      if content.getLast? = some '/' then .ok (single (Tag.ofText content.dropLast), after)
      else .ok (opening (Tag.ofText content), after) := by
  obtain ⟨⟨inside, closed⟩, starts⟩ := element
  have found : untilUnquoted? none (content ++ '>' :: after) = some (content, after) :=
    untilUnquoted?_eq_some.mpr ⟨rfl, inside, closed⟩
  have shape : takeMarkup (content ++ '>' :: after) = takeElement (content ++ '>' :: after) := by
    cases content with
    | nil => rfl
    | cons c content =>
      obtain ⟨declaration, ending, instruction⟩ := starts c rfl
      rw [List.cons_append, takeMarkup.eq_def]
      split
      · next same => exact absurd (List.cons.inj same).1 declaration
      · next same => exact absurd (List.cons.inj same).1 ending
      · next same => exact absurd (List.cons.inj same).1 instruction
      · rfl
  rw [take, if_pos rfl, shape, takeElement, found]

private theorem takes_opening {tag : Tag} (element : Element tag.text) (unended : tag.text.getLast? ≠ some '/')
    (cut : Tag.ofText tag.text = tag) (after : List Char) : Takes ((opening tag).write ++ after) (opening tag) after := by
  have shape : (opening tag).write ++ after = '<' :: (tag.text ++ '>' :: after) := by
    change '<' :: tag.text ++ ['>'] ++ after = _
    simp
  refine ⟨_, _, shape, ?_⟩
  rw [take_element element, if_neg unended, cut]

private theorem takes_single {tag : Tag} (element : Element (tag.text ++ ['/'])) (cut : Tag.ofText tag.text = tag)
    (after : List Char) : Takes ((single tag).write ++ after) (single tag) after := by
  have shape : (single tag).write ++ after = '<' :: ((tag.text ++ ['/']) ++ '>' :: after) := by
    change '<' :: tag.text ++ ['/', '>'] ++ after = _
    simp
  refine ⟨_, _, shape, ?_⟩
  rw [take_element element, if_pos List.getLast?_concat, List.dropLast_concat, cut]

private theorem takes_closing {name : List Char} (kept : Kept name) (trimmed : closingName name = name)
    (after : List Char) : Takes ((closing name).write ++ after) (closing name) after := by
  have found : untilUnquoted? none (name ++ '>' :: after) = some (name, after) :=
    untilUnquoted?_eq_some.mpr ⟨rfl, kept.1, kept.2⟩
  have shape : (closing name).write ++ after = '<' :: '/' :: (name ++ '>' :: after) := by
    change ['<', '/'] ++ name ++ ['>'] ++ after = _
    simp
  have step : ∀ text, take '<' ('/' :: text) = takeClosing text := fun _ => rfl
  refine ⟨_, _, shape, ?_⟩
  rw [step, takeClosing, found]
  simp only [trimmed]

/-- What is written of an event is read as that event. -/
theorem takes_write {event : Event} (writable : event.Writable) {after : List Char} (apart : event.Marked ∨ Ended after) :
    Takes (event.write ++ after) event after := by
  cases event with
  | text content => exact takes_text writable.1 writable.2 (apart.resolve_left id)
  | reference name => exact takes_reference writable after
  | comment content => exact takes_comment writable after
  | data content => exact takes_data writable after
  | doctype content => exact takes_doctype writable.1 writable.2.1 writable.2.2 after
  | instruction content => exact takes_instruction writable.1 writable.2 after
  | opening tag => exact takes_opening writable.1 writable.2.1 writable.2.2 after
  | single tag => exact takes_single writable.1 writable.2 after
  | closing name => exact takes_closing writable.1 writable.2 after

private theorem writable_comment {text after : List Char} {event : Event}
    (taken : takeComment text = .ok (event, after)) : event.Writable ∧ event.Marked := by
  unfold takeComment at taken
  split at taken
  · cases taken
  · next found =>
    cases taken
    exact ⟨((until?_eq_some (by decide)).mp found).2, trivial⟩

private theorem writable_data {text after : List Char} {event : Event} (taken : takeData text = .ok (event, after)) :
    event.Writable ∧ event.Marked := by
  unfold takeData at taken
  split at taken
  · cases taken
  · next found =>
    cases taken
    exact ⟨((until?_eq_some (by decide)).mp found).2, trivial⟩

private theorem writable_doctype {text after : List Char} {event : Event}
    (taken : takeDoctype text = .ok (event, after)) : event.Writable ∧ event.Marked := by
  unfold takeDoctype at taken
  split at taken
  · cases taken
  · next content rest found =>
    obtain ⟨blanks, blank, whole⟩ := Tag.exists_blanks content
    have balanced := (untilBalanced?_eq_some.mp found).2
    split at taken
    · cases taken
    · next named =>
      cases taken
      rw [whole] at balanced
      exact ⟨⟨balanced_of_blanks blank balanced, named, List.dropWhile_idempotent _ _⟩, trivial⟩

private theorem writable_instruction {text after : List Char} {event : Event}
    (taken : takeInstruction text = .ok (event, after)) : event.Writable ∧ event.Marked := by
  unfold takeInstruction at taken
  split at taken
  · cases taken
  · next other =>
    split at taken
    · cases taken
    · next content rest found =>
      cases taken
      obtain ⟨rfl, clear⟩ := (until?_eq_some (by decide)).mp found
      refine ⟨⟨?_, clear⟩, trivial⟩
      cases content with
      | nil => exact fun same => nomatch same
      | cons c content => exact other

/-- Blanks behind a name are no part of the name, and without them it is kept as it is. -/
theorem closingName_spec (content : List Char) :
    (∃ blanks, Blanks blanks ∧ content = closingName content ++ blanks) ∧
      closingName (closingName content) = closingName content := by
  have whole : content.rdropWhile Text.isMarkupBlank ++ content.rtakeWhile Text.isMarkupBlank = content :=
    List.rdropWhile_append_rtakeWhile
  have again : (content.rdropWhile Text.isMarkupBlank).rdropWhile Text.isMarkupBlank =
      content.rdropWhile Text.isMarkupBlank := List.rdropWhile_idempotent _ _
  have unfolded : ∀ text, closingName text =
      if (text.rdropWhile Text.isMarkupBlank).isEmpty then text else text.rdropWhile Text.isMarkupBlank :=
    fun _ => rfl
  by_cases nameless : (content.rdropWhile Text.isMarkupBlank).isEmpty
  · have same : closingName content = content := by rw [unfolded, if_pos nameless]
    rw [same]
    exact ⟨⟨[], fun _ member => (nomatch member), (List.append_nil _).symm⟩, same⟩
  · have same : closingName content = content.rdropWhile Text.isMarkupBlank := by rw [unfolded, if_neg nameless]
    rw [same]
    refine ⟨⟨_, fun c member => List.mem_rtakeWhile_imp member, whole.symm⟩, ?_⟩
    rw [unfolded, again, if_neg nameless]

private theorem writable_closing {text after : List Char} {event : Event}
    (taken : takeClosing text = .ok (event, after)) : event.Writable ∧ event.Marked := by
  unfold takeClosing at taken
  split at taken
  · cases taken
  · next content rest found =>
    cases taken
    obtain ⟨_, inside, closed⟩ := untilUnquoted?_eq_some.mp found
    obtain ⟨⟨blanks, blank, whole⟩, trimmed⟩ := closingName_spec content
    rw [whole, inside_append] at inside
    refine ⟨⟨⟨inside.1, ?_⟩, trimmed⟩, trivial⟩
    rw [whole, quoted_append] at closed
    cases state : quoted none (closingName content) with
    | none => rfl
    | some mark =>
      rw [state, (quoted_of_plain (not_quotes_of_blanks blank)).2 mark (quotes_of_quoted state)] at closed
      cases closed

private theorem ofText_text (text : List Char) : (Tag.ofText text).text = text :=
  List.takeWhile_append_dropWhile

private theorem writable_element {text after : List Char} {event : Event} (starts : Starts text)
    (taken : takeElement text = .ok (event, after)) : event.Writable ∧ event.Marked := by
  unfold takeElement at taken
  split at taken
  · cases taken
  · next content rest found =>
    obtain ⟨rfl, inside, closed⟩ := untilUnquoted?_eq_some.mp found
    have element : Element content := by
      refine ⟨⟨inside, closed⟩, fun c head => starts c ?_⟩
      cases content with
      | nil => cases head
      | cons d content => exact head
    split at taken
    · next slash =>
      cases taken
      have whole : content.dropLast ++ ['/'] = content := List.dropLast_append_getLast? _ slash
      refine ⟨⟨?_, ?_⟩, trivial⟩
      · rw [ofText_text, whole]
        exact element
      · rw [ofText_text]
    · next unended =>
      cases taken
      refine ⟨⟨?_, ?_, ?_⟩, trivial⟩
      · rw [ofText_text]
        exact element
      · rw [ofText_text]
        exact unended
      · rw [ofText_text]

private theorem writable_declaration {text after : List Char} {event : Event}
    (taken : takeDeclaration text = .ok (event, after)) : event.Writable ∧ event.Marked := by
  unfold takeDeclaration at taken
  split at taken
  · split at taken
    · exact writable_comment taken
    · cases taken
  · split at taken
    · exact writable_data taken
    · cases taken
  · split at taken
    · split at taken
      · exact writable_doctype taken
      · cases taken
    · cases taken
  · cases taken

private theorem writable_markup {text after : List Char} {event : Event}
    (taken : takeMarkup text = .ok (event, after)) : event.Writable ∧ event.Marked := by
  unfold takeMarkup at taken
  split at taken
  · exact writable_declaration taken
  · exact writable_closing taken
  · exact writable_instruction taken
  · next declaration ending instruction =>
    apply writable_element _ taken
    intro c head
    obtain ⟨rest, rfl⟩ := List.head?_eq_some_iff.mp head
    refine ⟨?_, ?_, ?_⟩
    · rintro rfl
      exact declaration rest rfl
    · rintro rfl
      exact ending rest rfl
    · rintro rfl
      exact instruction rest rfl

private theorem writable_reference {text after : List Char} {event : Event}
    (taken : takeReference text = .ok (event, after)) : event.Writable ∧ event.Marked := by
  unfold takeReference at taken
  split at taken
  · cases taken
    exact ⟨plain_takeWhile isReferenceEnd text, trivial⟩
  · cases taken

/-- An event that was read can be written. It starts with a mark, or it is a run of text and at its end. -/
theorem writable_take {first : Char} {rest after : List Char} {event : Event}
    (taken : take first rest = .ok (event, after)) :
    event.Writable ∧ (event.Marked ∨ isTextEnd first = false ∧ Ended after) := by
  unfold take at taken
  split at taken
  · obtain ⟨writable, marked⟩ := writable_markup taken
    exact ⟨writable, .inl marked⟩
  · next bracket =>
    split at taken
    · obtain ⟨writable, marked⟩ := writable_reference taken
      exact ⟨writable, .inl marked⟩
    · next reference =>
      cases taken
      have plain : isTextEnd first = false := by simp [isTextEnd, bracket, reference]
      refine ⟨⟨List.cons_ne_nil _ _, fun c member => ?_⟩, .inr ⟨plain, ended_dropWhile isTextEnd rest⟩⟩
      rcases List.mem_cons.mp member with rfl | later
      · exact plain
      · exact plain_takeWhile isTextEnd rest c later

end Event
end EnvelopeWarp
