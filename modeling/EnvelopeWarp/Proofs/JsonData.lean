import EnvelopeWarp.Proofs.JsonNumbers
import EnvelopeWarp.Proofs.JsonText

/-! Structured data is read back from what is written of it. A value takes the reader from any state in which a value
may start to the state in which it has been put into what is open around it. -/

namespace EnvelopeWarp
namespace Json

/-- The state after all tokens of a text. -/
def run? (state : State) (text : List Char) : Option State :=
  (Token.all? text).bind fun tokens => tokens.foldlM State.step state

private theorem run?_nil (state : State) : run? state [] = some state := by
  unfold run? Token.all?
  rfl

private theorem read?_of_run? {text : List Char} {data : Data} (done : run? (.wantsValue []) text = some (.done data)) :
    read? text = some data := by
  obtain ⟨tokens, found, taken⟩ := Option.bind_eq_some_iff.mp done
  unfold read?
  rw [found, Option.bind_eq_bind, Option.bind_some, taken]
  rfl

section Tokens
variable {state : State} {outer : List Frame} {first : Char} {rest after : List Char} {token : Token}

private theorem all?_of_nil {text : List Char} (ahead : text.dropWhile Text.isMarkupBlank = []) :
    Token.all? text = some [] := by
  rw [Token.all?]
  split
  · rfl
  · next same => rw [ahead] at same; cases same

private theorem all?_of_cons {text : List Char} (ahead : text.dropWhile Text.isMarkupBlank = first :: rest) :
    Token.all? text = (Token.take? first rest).bind fun found => (Token.all? found.2).map (found.1 :: ·) := by
  rw [Token.all?]
  split
  · next same => rw [ahead] at same; cases same
  · next same =>
    obtain ⟨rfl, rfl⟩ := List.cons.inj (ahead.symm.trans same)
    split
    · next failed => rw [failed]; rfl
    · next found => rw [found]; rfl

private theorem run?_blanks {blanks : List Char} (blank : ∀ c ∈ blanks, Text.isMarkupBlank c = true)
    (text : List Char) : run? state (blanks ++ text) = run? state text := by
  have skipped : (blanks ++ text).dropWhile Text.isMarkupBlank = text.dropWhile Text.isMarkupBlank :=
    List.dropWhile_append_of_pos blank
  have same : Token.all? (blanks ++ text) = Token.all? text := by
    cases ahead : text.dropWhile Text.isMarkupBlank with
    | nil => rw [all?_of_nil ahead, all?_of_nil (skipped.trans ahead)]
    | cons first rest => rw [all?_of_cons ahead, all?_of_cons (skipped.trans ahead)]
  rw [run?, same, run?]

private theorem run?_newLine (depth : Nat) (text : List Char) :
    run? state (newLine depth ++ text) = run? state text := by
  refine run?_blanks (fun c member => ?_) text
  rcases List.mem_cons.mp member with rfl | space
  · rfl
  · rw [(List.mem_replicate.mp space).2]
    rfl

/-- A token moves the reader by one step. -/
theorem run?_token (unblank : Text.isMarkupBlank first = false) (taken : Token.take? first rest = some (token, after)) :
    run? state (first :: rest) = (state.step token).bind fun next => run? next after := by
  have open_ : Free Text.isMarkupBlank (first :: rest) := .cons unblank
  have tokens : Token.all? (first :: rest) = (Token.all? after).map (token :: ·) := by
    rw [all?_of_cons open_.dropWhile, taken]
    rfl
  unfold run?
  rw [tokens]
  cases Token.all? after with
  | none => cases state.step token <;> rfl
  | some tokens => rfl

/-- A mark is a token by itself. -/
theorem run?_mark {next : State} (unblank : Text.isMarkupBlank first = false)
    (taken : Token.take? first after = some (token, after)) (step : state.step token = some next) :
    run? state (first :: after) = run? next after := by
  rw [run?_token unblank taken, step]
  rfl

private theorem run?_nothing :
    run? state (nothingText ++ after) = (state.step .nothing).bind fun next => run? next after :=
  run?_token rfl rfl

private theorem run?_flag (value : Bool) :
    run? state (flagText value ++ after) = (state.step (.flag value)).bind fun next => run? next after := by
  cases value
  · exact run?_token rfl rfl
  · exact run?_token rfl rfl

private theorem run?_number {literal : Literal} (sound : literal.Sound) (number : isNumber literal = true)
    (free : Free Literal.goesOn after) :
    run? state (literal.text ++ after) = (state.step (.number literal)).bind fun next => run? next after := by
  obtain ⟨first, rest, shape, unblank, taken⟩ := take?_number sound number free
  rw [shape]
  exact run?_token unblank taken

private theorem run?_quote (text : List Char) : ∃ pieces, characters? pieces = some text ∧ ∀ state,
    run? state (quote text ++ after) = (state.step (.text pieces)).bind fun next => run? next after := by
  obtain ⟨rest, pieces, shape, found, meant⟩ := pieces?_quote text after
  have taken : Token.take? '\x22' rest = some (.text pieces, after) := by
    unfold Token.take?
    simp only
    rw [found]
    rfl
  refine ⟨pieces, meant, fun state => ?_⟩
  rw [shape]
  exact run?_token rfl taken

end Tokens

/-- A value may come next, which is a part of what is open. -/
def Opens (state : State) (outer : List Frame) : Prop :=
  ∀ token, token ≠ .closeList → state.step token = State.start outer token

private theorem opens_wantsValue (outer : List Frame) : Opens (.wantsValue outer) outer :=
  fun _ _ => rfl

private theorem opens_firstItem (outer : List Frame) : Opens (.firstItem outer) (.items [] :: outer) := by
  intro token open_
  cases token with
  | closeList => exact absurd rfl open_
  | _ => rfl

/-- Wherever a value may come, what is written of the data is read as the data. -/
def IsRead (data : Data) : Prop :=
  ∀ depth {state : State} {outer : List Frame} {after : List Char}, Opens state outer → Free Literal.goesOn after →
    run? state (pretty depth data ++ after) = run? (State.put data outer) after

section Parts
variable {state : State} {outer : List Frame} {after : List Char}

private theorem free_newLine (depth : Nat) (text : List Char) : Free Literal.goesOn (newLine depth ++ text) :=
  .cons rfl

private theorem run?_prettyItems (depth : Nat) {items : List Data} (each : ∀ item ∈ items, IsRead item)
    (some_item : items ≠ [])
    {before : List Data} (opens : Opens state (.items before :: outer)) (free : Free Literal.goesOn after) :
    run? state (prettyItems depth items ++ after) = run? (.moreItems (items.reverse ++ before) outer) after := by
  induction items generalizing state before with
  | nil => exact absurd rfl some_item
  | cons item items ih =>
    have first := each item (.head _)
    cases items with
    | nil =>
      rw [prettyItems, List.append_assoc, run?_newLine, first depth opens free]
      rfl
    | cons next items =>
      have rest := ih (fun other member => each other (.tail _ member)) (List.cons_ne_nil _ _)
        (opens_wantsValue (.items (item :: before) :: outer))
      have comma : run? (State.put item (.items before :: outer)) (',' :: (prettyItems depth (next :: items) ++ after)) =
          run? (.wantsValue (.items (item :: before) :: outer)) (prettyItems depth (next :: items) ++ after) :=
        run?_mark rfl rfl rfl
      rw [prettyItems]
      · simp only [List.append_assoc, List.cons_append]
        rw [run?_newLine, first depth opens (.cons rfl), comma, rest]
        simp
      · exact List.cons_ne_nil _ _

/-- A name may come next, as one of a field of the record that is open. -/
def OpensField (state : State) (before : List Field) (outer : List Frame) : Prop :=
  ∀ pieces, state.step (.text pieces) = some (.wantsColon before (State.nameOf pieces) outer)

private theorem run?_field (depth : Nat) {name : String} {data : Data} (read : IsRead data) {before : List Field}
    (opens : OpensField state before outer) (free : Free Literal.goesOn after) :
    run? state (newLine depth ++ quote name.toList ++ ':' :: ' ' :: pretty depth data ++ after) =
      run? (.moreFields ((some name, data) :: before) outer) after := by
  obtain ⟨pieces, meant, named⟩ := @run?_quote (':' :: ' ' :: (pretty depth data ++ after)) name.toList
  have colon : run? (.wantsColon before (some name) outer) (':' :: ' ' :: (pretty depth data ++ after)) =
      run? (.wantsValue (.fields before (some name) :: outer)) (' ' :: (pretty depth data ++ after)) :=
    run?_mark rfl rfl rfl
  have blank : run? (.wantsValue (.fields before (some name) :: outer)) (' ' :: (pretty depth data ++ after)) =
      run? (.wantsValue (.fields before (some name) :: outer)) (pretty depth data ++ after) :=
    @run?_blanks _ [' '] (List.forall_mem_singleton.mpr rfl) _
  have name_read : State.nameOf pieces = some name := by
    unfold State.nameOf
    rw [meant, Option.map_some, String.ofList_toList]
  simp only [List.append_assoc, List.cons_append]
  rw [run?_newLine, named, opens, Option.bind_some, name_read, colon, blank, read depth (opens_wantsValue _) free]
  rfl

private theorem run?_prettyFields (depth : Nat) {fields : List (String × Data)}
    (each : ∀ field ∈ fields, IsRead field.2)
    (some_field : fields ≠ []) {before : List Field} (opens : OpensField state before outer)
    (free : Free Literal.goesOn after) : run? state (prettyFields depth fields ++ after) =
      run? (.moreFields ((fields.map fun field => (some field.1, field.2)).reverse ++ before) outer) after := by
  induction fields generalizing state before with
  | nil => exact absurd rfl some_field
  | cons field fields ih =>
    obtain ⟨name, data⟩ := field
    have first : IsRead data := each (name, data) (.head _)
    cases fields with
    | nil => exact run?_field depth first opens free
    | cons next fields =>
      have opens_next : OpensField (.wantsName ((some name, data) :: before) outer) ((some name, data) :: before) outer :=
        fun _ => rfl
      have rest := ih (fun other member => each other (.tail _ member)) (List.cons_ne_nil _ _) opens_next
      have comma : run? (.moreFields ((some name, data) :: before) outer)
          (',' :: (prettyFields depth (next :: fields) ++ after)) =
            run? (.wantsName ((some name, data) :: before) outer) (prettyFields depth (next :: fields) ++ after) :=
        run?_mark rfl rfl rfl
      have shape : prettyFields depth ((name, data) :: next :: fields) ++ after =
          newLine depth ++ quote name.toList ++ ':' :: ' ' :: pretty depth data ++
            ',' :: (prettyFields depth (next :: fields) ++ after) := by
        rw [prettyFields]
        · simp only [List.append_assoc, List.cons_append]
        · exact List.cons_ne_nil _ _
      rw [shape, run?_field depth first opens (.cons rfl), comma, rest]
      simp

private theorem recordData_eq (fields : List (String × Data)) :
    State.recordData (fields.map fun field => (some field.1, field.2)).reverse = .record fields := by
  have named : ((fields.map fun field => ((some field.1, field.2) : Field)).mapM fun field =>
      field.1.map fun name => (name, field.2)) = some fields := by
    induction fields with
    | nil => rfl
    | cons field fields ih =>
      rw [List.map_cons, List.mapM_cons, ih]
      rfl
  unfold State.recordData
  rw [List.reverse_reverse, named]

end Parts

/-- Data that is written with nothing lost: its numbers are read back from their own texts. -/
inductive Readable : Data → Prop where
  | nothing : Readable .nothing
  | flag (value : Bool) : Readable (.flag value)
  | text (value : String) : Readable (.text value)
  | whole {value : Int} (small : value < wordLimit) (large : -(wordLimit : Int) ≤ 2 * value) : Readable (.whole value)
  | real {value : Float} (reads : read? (Layout.structured.text value) = some (.real value)) : Readable (.real value)
  | list {items : List Data} (each : ∀ item ∈ items, Readable item) : Readable (.list items)
  | record {fields : List (String × Data)} (each : ∀ field ∈ fields, Readable field.2) : Readable (.record fields)

private theorem isRead_number {literal : Literal} (sound : literal.Sound) (number : isNumber literal = true)
    {data : Data}
    (written : ∀ depth, pretty depth data = literal.text) (value : Json.number literal = data) : IsRead data := by
  intro depth state outer after opens free
  rw [written, run?_number sound number free, opens (.number literal) nofun, ← value]
  rfl

/-- A number that stands alone is read as its value. -/
theorem read?_text {literal : Literal} (sound : literal.Sound) (number : isNumber literal = true) :
    read? literal.text = some (Json.number literal) := by
  refine read?_of_run? ?_
  rw [← List.append_nil literal.text, run?_number sound number (.nil _)]
  exact run?_nil _

private theorem isRead_real {value : Float} (reads : read? (Layout.structured.text value) = some (.real value)) :
    IsRead (.real value) := by
  by_cases finite : value.isFinite = true
  · obtain ⟨literal, sound, number, written⟩ := structured_text finite
    rw [written, read?_text sound number] at reads
    exact isRead_number sound number (fun depth => by rw [pretty, written]) (Option.some.inj reads)
  · have alone : read? nothingText = some .nothing := by
      refine read?_of_run? ?_
      rw [← List.append_nil nothingText, run?_nothing]
      exact run?_nil _
    rw [structured_text_of_not_finite finite, alone] at reads
    cases reads

private theorem isRead_list {items : List Data} (each : ∀ item ∈ items, IsRead item) : IsRead (.list items) := by
  intro depth state outer after opens _
  have open_ (text : List Char) : run? state ('[' :: text) = run? (.firstItem outer) text :=
    run?_mark rfl rfl (opens .openList nofun)
  cases items with
  | nil =>
    rw [pretty, List.cons_append, open_]
    exact run?_mark rfl rfl rfl
  | cons item items =>
    have close : run? (.moreItems ((item :: items).reverse ++ []) outer) (']' :: after) =
        run? (State.put (.list (item :: items)) outer) after := by
      refine run?_mark rfl rfl ?_
      rw [List.append_nil, State.step, List.reverse_reverse]
    rw [pretty]
    · simp only [List.cons_append, List.append_assoc, List.nil_append]
      rw [open_, run?_prettyItems (depth + 1) each (List.cons_ne_nil _ _) (opens_firstItem outer) (free_newLine _ _),
        run?_newLine, close]
    · exact List.cons_ne_nil _ _

private theorem isRead_record {fields : List (String × Data)} (each : ∀ field ∈ fields, IsRead field.2) :
    IsRead (.record fields) := by
  intro depth state outer after opens _
  have open_ (text : List Char) : run? state ('\x7b' :: text) = run? (.firstName outer) text :=
    run?_mark rfl rfl (opens .openRecord nofun)
  cases fields with
  | nil =>
    rw [pretty, List.cons_append, open_]
    exact run?_mark rfl rfl rfl
  | cons field fields =>
    have close : run? (.moreFields (((field :: fields).map fun field => (some field.1, field.2)).reverse ++ []) outer)
        ('\x7d' :: after) = run? (State.put (.record (field :: fields)) outer) after := by
      refine run?_mark rfl rfl ?_
      rw [List.append_nil, State.step, recordData_eq]
    have opens_first : OpensField (.firstName outer) [] outer := fun _ => rfl
    rw [pretty]
    · simp only [List.cons_append, List.append_assoc, List.nil_append]
      rw [open_, run?_prettyFields (depth + 1) each (List.cons_ne_nil _ _) opens_first (free_newLine _ _),
        run?_newLine, close]
    · exact List.cons_ne_nil _ _

theorem Readable.isRead {data : Data} (readable : Readable data) : IsRead data := by
  induction readable with
  | nothing =>
    intro depth state outer after opens _
    have written : pretty depth .nothing = nothingText := by rw [pretty] <;> nofun
    rw [written, run?_nothing, opens .nothing nofun]
    rfl
  | flag value =>
    intro depth state outer after opens _
    rw [pretty, run?_flag, opens (.flag value) nofun]
    rfl
  | text value =>
    intro depth state outer after opens _
    obtain ⟨pieces, meant, run⟩ := @run?_quote after value.toList
    have data : State.textData pieces = .text value := by
      unfold State.textData
      rw [meant]
      exact congrArg Data.text String.ofList_toList
    rw [pretty, run, opens (.text pieces) nofun, ← data]
    rfl
  | whole small large =>
    exact isRead_number wholeLiteral_sound isNumber_wholeLiteral (fun depth => by rw [pretty, wholeLiteral_text])
      (number_wholeLiteral small large)
  | real reads => exact isRead_real reads
  | list _ each => exact isRead_list each
  | record _ each => exact isRead_record each

/-- What is written of readable data is read as this data. -/
theorem read?_pretty {data : Data} (readable : Readable data) (depth : Nat) :
    read? (pretty depth data) = some data := by
  refine read?_of_run? ?_
  have run := readable.isRead depth (opens_wantsValue []) (.nil _)
  rw [List.append_nil] at run
  rw [run]
  exact run?_nil _

/-- What is left of a number in structured data, where only finite ones have a notation. -/
def kept (value : Float) : Data :=
  if value.isFinite then .real value else .nothing

theorem pretty_kept (depth : Nat) (value : Float) : pretty depth (kept value) = Layout.structured.text value := by
  unfold kept
  split
  · rw [pretty]
  · next unbounded =>
    rw [structured_text_of_not_finite unbounded]
    rw [pretty] <;> nofun

/-- A finite number is read back from its own text. The reader does not always find the nearest double, so this is asked
of each number by itself. -/
def ReadsBack (value : Float) : Prop :=
  value.isFinite = true → read? (Layout.structured.text value) = some (.real value)

theorem readable_kept {value : Float} (back : ReadsBack value) : Readable (kept value) := by
  unfold kept
  split
  · next finite => exact .real (back finite)
  · exact .nothing

theorem real?_kept (value : Float) : (kept value).real? = if value.isFinite then some value else none := by
  unfold kept
  split <;> rfl

end Json
end EnvelopeWarp
