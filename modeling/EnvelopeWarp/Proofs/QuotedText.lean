import EnvelopeWarp.Proofs.AttributeText

/-! Quotes within a tag. A tag ends at the first closing bracket outside of quotes. When no name of an attribute
holds a quote, the quotes behind the name of a tag come in pairs, one pair for each value: if a quote were open
where the attributes start, one would be open where they end. So no name of an attribute holds a closing bracket,
and attributes written between double quotes stay in their tag. -/

namespace EnvelopeWarp
namespace Event

def Quotes (c : Char) : Prop :=
  c = '\x22' ∨ c = '\x27'

instance (c : Char) : Decidable (Quotes c) :=
  inferInstanceAs (Decidable (c = '\x22' ∨ c = '\x27'))

/-- The quote that is open after a text, given the one that is open before it. -/
def quoted (quote : Option Char) (text : List Char) : Option Char :=
  text.foldl quoteAfter quote

/-- No closing bracket of a text is outside of quotes. -/
def Inside : Option Char → List Char → Prop
  | _, [] => True
  | quote, c :: rest => ¬(quote = none ∧ c = '>') ∧ Inside (quoteAfter quote c) rest

private theorem quoted_cons (quote : Option Char) (c : Char) (rest : List Char) :
    quoted quote (c :: rest) = quoted (quoteAfter quote c) rest :=
  rfl

theorem quoted_append (quote : Option Char) (first second : List Char) :
    quoted quote (first ++ second) = quoted (quoted quote first) second :=
  List.foldl_append

theorem inside_append {quote : Option Char} {first second : List Char} :
    Inside quote (first ++ second) ↔ Inside quote first ∧ Inside (quoted quote first) second := by
  induction first generalizing quote with
  | nil => simp [Inside, quoted]
  | cons c first ih =>
    rw [List.cons_append, Inside, Inside, ih, and_assoc]
    rfl

theorem untilUnquoted?_eq_some {quote : Option Char} {text content after : List Char} :
    untilUnquoted? quote text = some (content, after) ↔
      text = content ++ '>' :: after ∧ Inside quote content ∧ quoted quote content = none := by
  constructor
  · intro found
    induction text generalizing quote content with
    | nil => cases found
    | cons c rest ih =>
      rw [untilUnquoted?] at found
      split at found
      · next ends =>
        cases found
        exact ⟨by rw [ends.2]; rfl, trivial, ends.1⟩
      · next inside =>
        obtain ⟨⟨first, last⟩, step, same⟩ := Option.map_eq_some_iff.mp found
        cases same
        obtain ⟨shape, others, closed⟩ := ih step
        exact ⟨by rw [shape]; rfl, ⟨inside, others⟩, closed⟩
  · rintro ⟨rfl, inside, closed⟩
    induction content generalizing quote with
    | nil => rw [List.nil_append, untilUnquoted?, if_pos ⟨closed, rfl⟩]
    | cons c content ih => rw [List.cons_append, untilUnquoted?, if_neg inside.1, ih inside.2 closed, Option.map_some]

private theorem inside_of_not_mem_bracket {text : List Char} (absent : '>' ∉ text) (quote : Option Char) :
    Inside quote text := by
  induction text generalizing quote with
  | nil => trivial
  | cons c rest ih =>
    rw [List.mem_cons, not_or] at absent
    exact ⟨fun ends => absent.1 ends.2.symm, ih absent.2 _⟩

private theorem quoted_of_not_mem {quote : Char} {text : List Char} (absent : quote ∉ text) :
    quoted (some quote) text = some quote ∧ Inside (some quote) text := by
  induction text with
  | nil => exact ⟨rfl, trivial⟩
  | cons c rest ih =>
    rw [List.mem_cons, not_or] at absent
    obtain ⟨same, inside⟩ := ih absent.2
    have step : quoteAfter (some quote) c = some quote := if_neg (Ne.symm absent.1)
    refine ⟨?_, ?_, ?_⟩
    · rw [quoted_cons, step]
      exact same
    · exact fun ends => nomatch ends.1
    · rw [step]
      exact inside

theorem quoted_of_plain {text : List Char} (plain : ∀ c ∈ text, ¬Quotes c) :
    quoted none text = none ∧ ∀ mark, Quotes mark → quoted (some mark) text = some mark := by
  refine ⟨?_, fun mark marks => (quoted_of_not_mem fun member => plain mark member marks).1⟩
  induction text with
  | nil => rfl
  | cons c rest ih =>
    have step : quoteAfter none c = none := if_neg (plain c (.head _))
    rw [quoted_cons, step]
    exact ih fun d member => plain d (.tail _ member)

private theorem quoted_value {quote : Char} (quotes : Quotes quote) {raw : List Char} (absent : quote ∉ raw) :
    quoted none (quote :: raw ++ [quote]) = none ∧ Inside none (quote :: raw ++ [quote]) := by
  have opened : quoteAfter none quote = some quote := if_pos quotes
  have closed : quoteAfter (some quote) quote = none := if_pos rfl
  obtain ⟨kept, inside⟩ := quoted_of_not_mem absent
  constructor
  · rw [List.cons_append, quoted_cons, opened, quoted_append, kept]
    exact closed
  · rw [List.cons_append, Inside, opened, inside_append, kept]
    refine ⟨?_, inside, fun ends => (nomatch ends.1), trivial⟩
    rintro ⟨_, rfl⟩
    rcases quotes with same | same <;> cases same

private theorem quotes_quoted {quote : Option Char} (marks : ∀ c ∈ quote, Quotes c) (text : List Char) :
    ∀ c ∈ quoted quote text, Quotes c := by
  induction text generalizing quote with
  | nil => exact marks
  | cons c rest ih =>
    apply ih
    intro d next
    cases quote with
    | none =>
      unfold quoteAfter at next
      simp only at next
      split at next
      · next quotes =>
        cases next
        exact quotes
      · cases next
    | some mark =>
      unfold quoteAfter at next
      simp only at next
      split at next
      · cases next
      · exact marks d next

theorem quotes_of_quoted {text : List Char} {mark : Char} (opened : quoted none text = some mark) : Quotes mark := by
  have nothing : ∀ c ∈ (none : Option Char), Quotes c := fun _ same => nomatch same
  exact quotes_quoted nothing text mark opened

private theorem quoted_ne {quote : Char} {state : Option Char} (other : state ≠ some quote) {raw : List Char}
    (absent : quote ∉ raw) : quoted state raw ≠ some quote := by
  induction raw generalizing state with
  | nil => exact other
  | cons c raw ih =>
    rw [List.mem_cons, not_or] at absent
    apply ih _ absent.2
    cases state with
    | none =>
      unfold quoteAfter
      simp only
      split
      · exact fun same => absent.1 (Option.some.inj same).symm
      · exact other
    | some mark =>
      unfold quoteAfter
      simp only
      split
      · exact fun same => nomatch same
      · exact other

private theorem quoted_value_within {mark quote : Char} (quotes : Quotes quote) {raw : List Char}
    (absent : quote ∉ raw) : quoted (some mark) (quote :: raw ++ [quote]) ≠ none := by
  have start : quoteAfter (some mark) quote ≠ some quote := by
    unfold quoteAfter
    simp only
    split
    · exact fun same => nomatch same
    · next other => exact fun same => other (Option.some.inj same).symm
  have before : quoted (quoteAfter (some mark) quote) raw ≠ some quote := quoted_ne start absent
  rw [List.cons_append, quoted_cons, quoted_append, quoted_cons]
  cases state : quoted (quoteAfter (some mark) quote) raw with
  | none =>
    have opened : quoteAfter none quote = some quote := if_pos quotes
    rw [opened]
    exact fun same => nomatch same
  | some open_ =>
    rw [state] at before
    have kept : quoteAfter (some open_) quote = some open_ := if_neg fun same => before (congrArg some same.symm)
    rw [kept]
    exact fun same => nomatch same

def Unquoted (items : List Attribute) : Prop :=
  ∀ item ∈ items, ∀ c ∈ item.key, ¬Quotes c

instance (items : List Attribute) : Decidable (Unquoted items) :=
  decidable_of_iff ((items.all fun item => item.key.all fun c => !decide (Quotes c)) = true) (by simp [Unquoted])

theorem not_quotes_of_blanks {text : List Char} (blank : Blanks text) : ∀ c ∈ text, ¬Quotes c := by
  rintro c member (rfl | rfl) <;> cases blank _ member

private theorem plain_front {blanks key gap space : List Char} (blank : Blanks blanks) (plain : ∀ c ∈ key, ¬Quotes c)
    (gap_blank : Blanks gap) (space_blank : Blanks space) : ∀ c ∈ blanks ++ key ++ gap ++ '=' :: space, ¬Quotes c := by
  intro c member
  simp only [List.mem_append, List.mem_cons] at member
  rcases member with ((member | member) | member) | rfl | member
  · exact not_quotes_of_blanks blank c member
  · exact plain c member
  · exact not_quotes_of_blanks gap_blank c member
  · rintro (same | same) <;> cases same
  · exact not_quotes_of_blanks space_blank c member

private theorem front_split (blanks key gap space raw rest : List Char) (quote : Char) :
    blanks ++ key ++ gap ++ '=' :: (space ++ quote :: (raw ++ quote :: rest)) =
      (blanks ++ key ++ gap ++ '=' :: space) ++ ((quote :: raw ++ [quote]) ++ rest) := by
  simp only [List.append_assoc, List.cons_append, List.nil_append]

/-- Behind listed attributes a quote is open only if one was open before them. -/
theorem quoted_of_lists {text : List Char} {items : List Attribute} (lists : Attribute.Lists text items)
    (unquoted : Unquoted items) : quoted none text = none ∧ ∀ mark, Quotes mark → quoted (some mark) text ≠ none := by
  induction lists with
  | nil blank =>
    obtain ⟨closed, within⟩ := quoted_of_plain (not_quotes_of_blanks blank)
    refine ⟨closed, fun mark marks => ?_⟩
    rw [within mark marks]
    exact fun same => nomatch same
  | @cons blanks key gap space raw rest quote items blank keyed gap_blank space_blank quotes absent others ih =>
    obtain ⟨closed, within⟩ := ih fun item member => unquoted item (.tail _ member)
    obtain ⟨front_closed, front_within⟩ :=
      quoted_of_plain (plain_front blank (unquoted _ (.head _)) gap_blank space_blank)
    rw [front_split]
    refine ⟨?_, fun mark marks => ?_⟩
    · rw [quoted_append, front_closed, quoted_append, (quoted_value quotes absent).1]
      exact closed
    · rw [quoted_append, front_within mark marks, quoted_append]
      have single : ∀ c ∈ some mark, Quotes c := fun c same => Option.some.inj same ▸ marks
      have marks_after := quotes_quoted single (quote :: raw ++ [quote])
      cases state : quoted (some mark) (quote :: raw ++ [quote]) with
      | none => exact absurd state (quoted_value_within quotes absent)
      | some next => exact within next (marks_after next state)

/-- The names of attributes that stand in a tag hold no closing bracket. -/
theorem bracket_not_mem_key {text : List Char} {items : List Attribute} (lists : Attribute.Lists text items)
    (unquoted : Unquoted items) (inside : Inside none text) : ∀ item ∈ items, '>' ∉ item.key := by
  induction lists with
  | nil blank => exact fun _ member => nomatch member
  | @cons blanks key gap space raw rest quote items blank keyed gap_blank space_blank quotes absent others ih =>
    have plain := plain_front blank (unquoted _ (.head _)) gap_blank space_blank
    rw [front_split] at inside
    obtain ⟨front, behind⟩ := inside_append.mp inside
    rw [(quoted_of_plain plain).1, inside_append, (quoted_value quotes absent).1] at behind
    have later := behind.2
    intro item member
    rcases List.mem_cons.mp member with rfl | member
    · intro bracket
      obtain ⟨before, after, shape⟩ := List.append_of_mem bracket
      simp only at shape
      have ahead : blanks ++ key ++ gap ++ '=' :: space = (blanks ++ before) ++ '>' :: (after ++ gap ++ '=' :: space) := by
        rw [shape]
        simp only [List.append_assoc, List.cons_append]
      rw [ahead] at front
      simp only [ahead] at plain
      rw [inside_append, (quoted_of_plain fun c member => plain c (List.mem_append_left _ member)).1] at front
      exact front.2.1 ⟨rfl, rfl⟩
    · exact ih (fun item member => unquoted item (.tail _ member)) later item member

private theorem inside_text {item : Attribute} (plain : ∀ c ∈ item.key, ¬Quotes c) (bracketless : '>' ∉ item.key) :
    quoted none item.text = none ∧ Inside none item.text := by
  obtain ⟨front, shape, front_plain, front_bracketless⟩ : ∃ front,
      item.text = front ++ ('\x22' :: item.raw.flatMap Attribute.requoteChar ++ ['\x22']) ∧
        (∀ c ∈ front, ¬Quotes c) ∧ '>' ∉ front := by
    refine ⟨' ' :: item.key ++ ['='], by simp [Attribute.text], ?_, by simpa using bracketless⟩
    intro c member
    simp only [List.cons_append, List.mem_cons, List.mem_append, List.not_mem_nil, or_false] at member
    rcases member with rfl | member | rfl
    · rintro (same | same) <;> cases same
    · exact plain c member
    · rintro (same | same) <;> cases same
  have quotes : Quotes '\x22' := .inl rfl
  obtain ⟨closed, inside⟩ := quoted_value quotes (Reference.quote_not_mem_requote item.raw)
  rw [shape, quoted_append, inside_append, (quoted_of_plain front_plain).1]
  exact ⟨closed, inside_of_not_mem_bracket front_bracketless _, inside⟩

theorem inside_ofAttributes {items : List Attribute} (unquoted : Unquoted items)
    (bracketless : ∀ item ∈ items, '>' ∉ item.key) :
    quoted none (items.flatMap Attribute.text) = none ∧ Inside none (items.flatMap Attribute.text) := by
  induction items with
  | nil => exact ⟨rfl, trivial⟩
  | cons item items ih =>
    obtain ⟨closed, inside⟩ := inside_text (unquoted item (.head _)) (bracketless item (.head _))
    obtain ⟨closed_after, inside_after⟩ :=
      ih (fun other member => unquoted other (.tail _ member)) fun other member => bracketless other (.tail _ member)
    rw [List.flatMap_cons, quoted_append, inside_append, closed]
    exact ⟨closed_after, inside, inside_after⟩

end Event

namespace Attribute

def requoted (item : Attribute) : Attribute :=
  ⟨item.key, item.raw.flatMap requoteChar⟩

private theorem lists_text {items : List Attribute} (keyed : ∀ item ∈ items, Keyed item.key) :
    Lists (items.flatMap text) (items.map requoted) := by
  induction items with
  | nil => exact .nil fun _ member => nomatch member
  | cons item items ih =>
    have blank : Blanks [' '] := fun c member => by rw [List.mem_singleton.mp member]; rfl
    have nothing : Blanks [] := fun _ member => nomatch member
    have listed := Lists.cons blank (keyed item (.head _)) nothing nothing (.inl rfl)
      (Reference.quote_not_mem_requote item.raw) (ih fun other member => keyed other (.tail _ member))
    simpa only [List.flatMap_cons, List.map_cons, text, requoted, List.append_assoc, List.cons_append,
      List.nil_append] using listed

end Attribute

theorem Tag.attributes_ofAttributes {items : List Attribute} (keyed : ∀ item ∈ items, Attribute.Keyed item.key)
    (distinct : (items.map Attribute.key).Nodup) (name : List Char) :
    (ofAttributes name items).attributes = ⟨items.map Attribute.requoted, none⟩ := by
  refine attributesFrom_of_lists (Attribute.lists_text keyed) _ (fun _ _ => rfl) ?_
  rwa [List.map_map]

end EnvelopeWarp
