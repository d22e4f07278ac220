import Mathlib.Data.List.Nodup
import EnvelopeWarp.Drawing.Render

/-! What a drawing keeps beside the list of its elements. In a drawing that is in step an id leads to the element that
has it, and path data to be written is the data of an element. A call that replaces path data changes one element, and
what is to be written in the place of its tag, so a drawing stays in step whatever calls are made. -/

namespace EnvelopeWarp

theorem ne_of_nodup_middle {α β : Type} {key : α → β} {before after : List α} {middle : α}
    (distinct : ((before ++ middle :: after).map key).Nodup) : ∀ item ∈ before ++ after, key item ≠ key middle := by
  rw [List.map_append, List.map_cons, List.nodup_middle, List.nodup_cons, ← List.map_append] at distinct
  exact fun item member same => distinct.1 (List.mem_map.mpr ⟨item, member, same⟩)

namespace Drawing

/-- A table leads from each id to where it is listed, and from nothing else. -/
def Locates (positions : List (String × Nat)) (ids : List String) : Prop :=
  ∀ id position, positions.lookup id = some position ↔ ids[position]? = some id

theorem locates_nil : Locates [] [] := by
  intro id position
  simp

section
variable {positions : List (String × Nat)} {ids : List String}

theorem Locates.nodup (located : Locates positions ids) : ids.Nodup := by
  rw [List.nodup_iff_getElem?_ne_getElem?]
  intro first second less bound same
  have found : ids[second]? = some ids[second] := List.getElem?_eq_getElem bound
  have earlier := (located _ _).mpr (same.trans found)
  rw [(located _ _).mpr found] at earlier
  exact Nat.ne_of_gt less (Option.some.inj earlier)

theorem Locates.lookup_eq_none (located : Locates positions ids) {id : String} :
    positions.lookup id = none ↔ id ∉ ids := by
  rw [List.mem_iff_getElem?, not_exists, Option.eq_none_iff_forall_ne_some]
  exact forall_congr' fun position => not_congr (located id position)

/-- An id that is listed last is found there. -/
theorem Locates.concat (located : Locates positions ids) {id : String} (fresh : positions.lookup id = none) :
    Locates (positions ++ [(id, ids.length)]) (ids ++ [id]) := by
  intro other position
  have absent := located.lookup_eq_none.mp fresh
  rw [List.lookup_append, List.lookup_cons, List.lookup_nil]
  by_cases own : other = id
  · rw [own, fresh, Option.none_or, beq_self_eq_true, Option.some_inj]
    constructor
    · rintro rfl
      exact List.getElem?_concat_length
    · intro found
      rcases Nat.lt_trichotomy position ids.length with inside | same | outside
      · rw [List.getElem?_append_left inside] at found
        exact absurd (List.mem_of_getElem? found) absent
      · exact same.symm
      · rw [List.getElem?_eq_none (by rwa [List.length_append])] at found
        cases found
  · rw [beq_eq_false_iff_ne.mpr own, Option.or_none, located]
    constructor
    · intro found
      rw [List.getElem?_append_left (List.getElem?_eq_some_iff.mp found).1, found]
    · intro found
      rcases Nat.lt_or_ge position ids.length with inside | outside
      · rwa [List.getElem?_append_left inside] at found
      · rw [List.getElem?_append_right outside] at found
        exact absurd (List.mem_singleton.mp (List.mem_of_getElem? found)) own

end

private theorem mem_rewrite {rewrites : List (Nat × String)} {place : Nat} {data : String} {entry : Nat × String} :
    entry ∈ rewrite rewrites place data ↔ entry = (place, data) ∨ entry ∈ rewrites ∧ entry.1 ≠ place := by
  unfold rewrite
  rw [List.mem_cons, List.mem_filter, bne_iff_ne]

theorem lookup_rewrite (rewrites : List (Nat × String)) (place : Nat) (data : String) (other : Nat) :
    (rewrite rewrites place data).lookup other = if other = place then some data else rewrites.lookup other := by
  unfold rewrite
  rw [List.lookup_cons]
  split
  · next here => rw [if_pos (beq_iff_eq.mp here)]
  · next elsewhere =>
    have apart : other ≠ place := beq_eq_false_iff_ne.mp elsewhere
    rw [if_neg apart]
    induction rewrites with
    | nil => rfl
    | cons entry rewrites ih =>
      rw [List.filter_cons, List.lookup_cons]
      by_cases replaced : entry.1 = place
      · rw [if_neg (by simpa using replaced), ih, beq_eq_false_iff_ne.mpr (replaced ▸ apart)]
      · rw [if_pos (bne_iff_ne.mpr replaced), List.lookup_cons, ih]

private theorem nodup_rewrite {rewrites : List (Nat × String)} (apart : (rewrites.map Prod.fst).Nodup) (place : Nat)
    (data : String) : ((rewrite rewrites place data).map Prod.fst).Nodup := by
  refine List.nodup_cons.mpr ⟨?_, apart.sublist (List.filter_sublist.map _)⟩
  intro left
  obtain ⟨entry, member, same⟩ := List.mem_map.mp left
  exact bne_iff_ne.mp (List.mem_filter.mp member).2 same

theorem mem_of_lookup {rewrites : List (Nat × String)} {place : Nat} {data : String}
    (found : rewrites.lookup place = some data) : (place, data) ∈ rewrites := by
  obtain ⟨front, back, rfl, _⟩ := List.lookup_eq_some_iff.mp found
  exact List.mem_append_right _ (.head _)

/-- The parts of a drawing fit together. -/
structure InStep (drawing : Drawing) : Prop where
  located : Locates drawing.positions (drawing.elements.map Element.id)
  places : (drawing.elements.map Element.place).Nodup
  /-- No tag is to be written with two texts. -/
  apart : (drawing.rewrites.map Prod.fst).Nodup
  pending : ∀ entry ∈ drawing.rewrites,
    ∃ element ∈ drawing.elements, element.place = entry.1 ∧ element.pathData = some entry.2

section
variable {drawing changed : Drawing} {id data : String} {element : Element}

theorem InStep.element?_eq_some (inStep : drawing.InStep) :
    drawing.element? id = some element ↔ element ∈ drawing.elements ∧ element.id = id := by
  unfold element?
  rw [Option.bind_eq_bind, Option.bind_eq_some_iff]
  constructor
  · rintro ⟨position, found, listed⟩
    have own := (inStep.located id position).mp found
    rw [List.getElem?_map, listed, Option.map_some, Option.some_inj] at own
    exact ⟨List.mem_of_getElem? listed, own⟩
  · rintro ⟨member, rfl⟩
    obtain ⟨position, listed⟩ := List.mem_iff_getElem?.mp member
    refine ⟨position, (inStep.located _ _).mpr ?_, listed⟩
    rw [List.getElem?_map, listed, Option.map_some]

theorem InStep.lookup_eq_none (inStep : drawing.InStep) {place : Nat}
    (empty : place ∉ drawing.elements.map Element.place) : drawing.rewrites.lookup place = none := by
  refine Option.eq_none_iff_forall_ne_some.mpr fun data found => empty ?_
  obtain ⟨element, member, here, _⟩ := inStep.pending _ (mem_of_lookup found)
  exact List.mem_map.mpr ⟨element, member, here⟩

/-- The drawing with other path data for an element that stands between others. -/
def replaced (drawing : Drawing) (before : List Element) (element : Element) (after : List Element) (data : String) :
    Drawing :=
  { drawing with
    elements := before ++ { element with pathData := some data } :: after
    rewrites := rewrite drawing.rewrites element.place data }

theorem setPathData_of_unknown (inStep : drawing.InStep) (unknown : id ∉ drawing.elements.map Element.id)
    (data : String) : drawing.setPathData id data = .error (.unknownElement id) := by
  unfold setPathData
  rw [inStep.located.lookup_eq_none.mpr unknown]

private theorem setPathData_of_split (inStep : drawing.InStep) {before after : List Element}
    (split : drawing.elements = before ++ element :: after) (data : String) :
    drawing.setPathData element.id data = .ok (drawing.replaced before element after data) := by
  have here : drawing.elements[before.length]? = some element := by
    rw [split, List.getElem?_append_right (Nat.le_refl _), Nat.sub_self]
    rfl
  have position : drawing.positions.lookup element.id = some before.length := by
    rw [inStep.located, List.getElem?_map, here, Option.map_some]
  unfold setPathData replaceAt replaced
  simp only [position, here]
  rw [split, List.set_append_right _ _ (Nat.le_refl _), Nat.sub_self, List.set_cons_zero]

theorem exists_split (known : id ∈ drawing.elements.map Element.id) :
    ∃ before element after, drawing.elements = before ++ element :: after ∧ element.id = id := by
  obtain ⟨element, member, own⟩ := List.mem_map.mp known
  obtain ⟨before, after, split⟩ := List.append_of_mem member
  exact ⟨before, element, after, split, own⟩

/-- All that a call can do to a drawing: it is refused, or it replaces the path data of the element with its id. -/
theorem setPathData_eq_ok (inStep : drawing.InStep) : drawing.setPathData id data = .ok changed ↔
    ∃ before element after, drawing.elements = before ++ element :: after ∧ element.id = id ∧
      changed = drawing.replaced before element after data := by
  constructor
  · intro set
    by_cases known : id ∈ drawing.elements.map Element.id
    · obtain ⟨before, element, after, split, rfl⟩ := exists_split known
      rw [setPathData_of_split inStep split, Except.ok.injEq] at set
      exact ⟨before, element, after, split, rfl, set.symm⟩
    · rw [setPathData_of_unknown inStep known] at set
      cases set
  · rintro ⟨before, element, after, split, rfl, rfl⟩
    exact setPathData_of_split inStep split data

theorem exists_setPathData (named : drawing.element? id = some element) (data : String) :
    ∃ changed, drawing.setPathData id data = .ok changed := by
  obtain ⟨position, found, _⟩ := Option.bind_eq_some_iff.mp named
  unfold setPathData
  rw [found]
  exact ⟨_, rfl⟩

theorem element?_setPathData (set : drawing.setPathData id data = .ok changed) :
    changed.element? id = (drawing.element? id).map fun element => { element with pathData := some data } := by
  unfold setPathData at set
  cases found : drawing.positions.lookup id with
  | none =>
    rw [found] at set
    cases set
  | some position =>
    rw [found] at set
    cases set
    unfold element? replaceAt
    cases listed : drawing.elements[position]? with
    | none => simp [found, listed]
    | some element =>
      obtain ⟨inside, rfl⟩ := List.getElem?_eq_some_iff.mp listed
      simp [found, inside]

theorem exists_setPathData_iff (inStep : drawing.InStep) :
    (∃ changed, drawing.setPathData id data = .ok changed) ↔ id ∈ drawing.elements.map Element.id := by
  constructor
  · rintro ⟨changed, set⟩
    obtain ⟨before, element, after, split, rfl, _⟩ := (setPathData_eq_ok inStep).mp set
    exact List.mem_map_of_mem (split ▸ List.mem_append_right _ (.head _))
  · intro known
    obtain ⟨before, element, after, split, rfl⟩ := exists_split known
    exact ⟨_, setPathData_of_split inStep split data⟩

theorem InStep.replaced (inStep : drawing.InStep) {before after : List Element}
    (split : drawing.elements = before ++ element :: after) (data : String) :
    (drawing.replaced before element after data).InStep := by
  have kept {β : Type} (field : Element → β) (same : field { element with pathData := some data } = field element) :
      (drawing.replaced before element after data).elements.map field = drawing.elements.map field := by
    simp only [Drawing.replaced, split, List.map_append, List.map_cons, same]
  have ids := kept Element.id rfl
  have places := kept Element.place rfl
  refine ⟨?_, places ▸ inStep.places, nodup_rewrite inStep.apart _ _, fun entry member => ?_⟩
  · rw [ids]
    exact inStep.located
  · change ∃ other ∈ before ++ { element with pathData := some data } :: after, _
    rcases mem_rewrite.mp member with rfl | ⟨old, elsewhere⟩
    · exact ⟨_, List.mem_append_right _ (.head _), rfl, rfl⟩
    · obtain ⟨other, inside, place, own⟩ := inStep.pending entry old
      refine ⟨other, ?_, place, own⟩
      rw [split] at inside
      rcases List.mem_append.mp inside with front | back
      · exact List.mem_append_left _ front
      · rcases List.mem_cons.mp back with rfl | later
        · exact absurd place.symm elsewhere
        · exact List.mem_append_right _ (.tail _ later)

theorem InStep.setPathData (inStep : drawing.InStep) (set : drawing.setPathData id data = .ok changed) :
    changed.InStep := by
  obtain ⟨_, _, _, split, _, rfl⟩ := (setPathData_eq_ok inStep).mp set
  exact inStep.replaced split data

end

/-- The drawing after a call that replaces path data. A call for an unknown element is refused and changes nothing. -/
def afterCall (drawing : Drawing) (call : String × String) : Drawing :=
  match drawing.setPathData call.1 call.2 with
  | .ok next => next
  | .error _ => drawing

def afterCalls (drawing : Drawing) (calls : List (String × String)) : Drawing :=
  calls.foldl afterCall drawing

theorem afterCalls_append (drawing : Drawing) (first second : List (String × String)) :
    drawing.afterCalls (first ++ second) = (drawing.afterCalls first).afterCalls second :=
  List.foldl_append

/-- Another drawing differs at most in path data. -/
structure Agrees (drawing changed : Drawing) : Prop where
  source : changed.source = drawing.source
  positions : changed.positions = drawing.positions
  width : changed.width = drawing.width
  height : changed.height = drawing.height
  ids : changed.elements.map Element.id = drawing.elements.map Element.id
  places : changed.elements.map Element.place = drawing.elements.map Element.place

theorem Agrees.refl (drawing : Drawing) : Agrees drawing drawing :=
  ⟨rfl, rfl, rfl, rfl, rfl, rfl⟩

theorem Agrees.trans {first second third : Drawing} (before : Agrees first second) (after : Agrees second third) :
    Agrees first third :=
  ⟨after.source.trans before.source, after.positions.trans before.positions, after.width.trans before.width,
    after.height.trans before.height, after.ids.trans before.ids, after.places.trans before.places⟩

private theorem agrees_replaceAt (drawing : Drawing) (position : Nat) (data : String) :
    Agrees drawing (drawing.replaceAt position data) := by
  unfold replaceAt
  cases listed : drawing.elements[position]? with
  | none => exact .refl drawing
  | some element =>
    obtain ⟨inside, rfl⟩ := List.getElem?_eq_some_iff.mp listed
    have kept {β : Type} (field : Element → β)
        (same : field { drawing.elements[position] with pathData := some data } = field drawing.elements[position]) :
        (drawing.elements.set position { drawing.elements[position] with pathData := some data }).map field =
          drawing.elements.map field := by
      rw [List.map_set, same, ← List.getElem_map field, List.set_getElem_self]
      rwa [List.length_map]
    exact ⟨rfl, rfl, rfl, rfl, kept Element.id rfl, kept Element.place rfl⟩

theorem agrees_afterCall (drawing : Drawing) (call : String × String) : Agrees drawing (drawing.afterCall call) := by
  unfold afterCall setPathData
  cases drawing.positions.lookup call.1 with
  | none => exact .refl drawing
  | some position => exact agrees_replaceAt drawing position call.2

theorem agrees_afterCalls (drawing : Drawing) (calls : List (String × String)) :
    Agrees drawing (drawing.afterCalls calls) := by
  induction calls generalizing drawing with
  | nil => exact .refl drawing
  | cons call calls ih => exact (agrees_afterCall drawing call).trans (ih _)

section
variable {drawing : Drawing}

theorem afterCall_of_unknown (inStep : drawing.InStep) {call : String × String}
    (unknown : call.1 ∉ drawing.elements.map Element.id) : drawing.afterCall call = drawing := by
  unfold afterCall
  rw [setPathData_of_unknown inStep unknown]

theorem afterCall_of_split (inStep : drawing.InStep) {before after : List Element} {element : Element}
    (split : drawing.elements = before ++ element :: after) (data : String) :
    drawing.afterCall (element.id, data) = drawing.replaced before element after data := by
  unfold afterCall
  rw [setPathData_of_split inStep split]

theorem InStep.afterCall (inStep : drawing.InStep) (call : String × String) : (drawing.afterCall call).InStep := by
  unfold Drawing.afterCall
  split
  · next set => exact inStep.setPathData set
  · exact inStep

theorem InStep.afterCalls (inStep : drawing.InStep) (calls : List (String × String)) :
    (drawing.afterCalls calls).InStep := by
  induction calls generalizing drawing with
  | nil => exact inStep
  | cons call calls ih => exact ih (inStep.afterCall call)

private theorem elements_afterCall (inStep : drawing.InStep) (call : String × String) :
    (drawing.afterCall call).elements = drawing.elements.map fun element =>
      if element.id = call.1 then { element with pathData := some call.2 } else element := by
  have others {elements : List Element} (different : ∀ element ∈ elements, element.id ≠ call.1) :
      elements.map (fun element => if element.id = call.1 then { element with pathData := some call.2 } else element) =
        elements :=
    (List.map_congr_left fun element member => if_neg (different element member)).trans (List.map_id elements)
  by_cases known : call.1 ∈ drawing.elements.map Element.id
  · obtain ⟨before, element, after, split, own⟩ := exists_split known
    have ids := inStep.located.nodup
    rw [split] at ids
    have apart := own ▸ ne_of_nodup_middle ids
    have replaced := afterCall_of_split inStep split call.2
    rw [own] at replaced
    rw [replaced, split, List.map_append, List.map_cons, if_pos own,
      others fun other member => apart other (List.mem_append_left _ member),
      others fun other member => apart other (List.mem_append_right _ member)]
    rfl
  · rw [afterCall_of_unknown inStep known]
    exact (others fun element member same => known (same ▸ List.mem_map_of_mem member)).symm

/-- What is to be written for an element after a call is the data of the call if it names the element. -/
theorem rewrites_afterCall (inStep : drawing.InStep) (call : String × String) {element : Element}
    (member : element ∈ drawing.elements) : (drawing.afterCall call).rewrites.lookup element.place =
      if element.id = call.1 then some call.2 else drawing.rewrites.lookup element.place := by
  by_cases known : call.1 ∈ drawing.elements.map Element.id
  · obtain ⟨before, named, after, split, own⟩ := exists_split known
    have replaced := afterCall_of_split inStep split call.2
    rw [own] at replaced
    have inside : named ∈ drawing.elements := split ▸ List.mem_append_right _ (.head _)
    have same : element.place = named.place ↔ element.id = call.1 := by
      rw [← own]
      constructor
      · exact fun place => congrArg Element.id (List.inj_on_of_nodup_map inStep.places member inside place)
      · exact fun id => congrArg Element.place (List.inj_on_of_nodup_map inStep.located.nodup member inside id)
    rw [replaced]
    refine (lookup_rewrite ..).trans ?_
    simp only [same]
  · have other : element.id ≠ call.1 := fun same => known (same ▸ List.mem_map_of_mem member)
    rw [afterCall_of_unknown inStep known, if_neg other]

theorem elements_afterCalls (inStep : drawing.InStep) (calls : List (String × String)) :
    (drawing.afterCalls calls).elements = drawing.elements.map fun element =>
      { element with pathData := (calls.reverse.lookup element.id).or element.pathData } := by
  induction calls generalizing drawing with
  | nil => exact (List.map_id _).symm
  | cons call calls ih =>
    refine (ih (inStep.afterCall call)).trans ?_
    rw [elements_afterCall inStep, List.map_map]
    apply List.map_congr_left
    intro element _
    rw [Function.comp_apply, List.reverse_cons, List.lookup_append, List.lookup_singleton]
    by_cases named : element.id = call.1
    · rw [if_pos named, if_pos (beq_iff_eq.mpr named), Option.or_assoc]
      rfl
    · rw [if_neg named, if_neg (mt beq_iff_eq.mp named), Option.or_none]

theorem lookup_afterCalls_eq_none (inStep : drawing.InStep) (calls : List (String × String)) {place : Nat}
    (empty : place ∉ drawing.elements.map Element.place) : (drawing.afterCalls calls).rewrites.lookup place = none := by
  apply (inStep.afterCalls calls).lookup_eq_none
  rwa [(agrees_afterCalls drawing calls).places]

/-- Only the last call for the id of an element says what is to be written for it. -/
theorem rewrites_afterCalls (inStep : drawing.InStep) (calls : List (String × String)) {element : Element}
    (member : element ∈ drawing.elements) : (drawing.afterCalls calls).rewrites.lookup element.place =
      (calls.reverse.lookup element.id).or (drawing.rewrites.lookup element.place) := by
  induction calls generalizing drawing element with
  | nil => rfl
  | cons call calls ih =>
    have listed : (if element.id = call.1 then { element with pathData := some call.2 } else element) ∈
        (drawing.afterCall call).elements := by
      rw [elements_afterCall inStep]
      exact List.mem_map_of_mem member
    have later := ih (inStep.afterCall call) listed
    have here := rewrites_afterCall inStep call member
    rw [List.reverse_cons, List.lookup_append, List.lookup_singleton]
    by_cases named : element.id = call.1
    · simp only [if_pos named] at later here
      rw [if_pos (beq_iff_eq.mpr named), Option.or_assoc]
      exact later.trans (by rw [here]; rfl)
    · simp only [if_neg named] at later here
      rw [if_neg (mt beq_iff_eq.mp named), Option.or_none]
      exact later.trans (by rw [here])

end

end Drawing
end EnvelopeWarp
