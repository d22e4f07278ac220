import EnvelopeWarp.Drawing.Error

/-! Drawings. A drawing keeps its source, the elements that carry an id, where the element with an
id is listed, and the path data to be written in the place of what the source has. Of elements with
the same id only the first counts. -/

namespace EnvelopeWarp

/-- An element with an id. -/
structure Element where
  id : String
  tag : String
  /-- The number of tags that start an element before its own. -/
  place : Nat
  pathData : Option String
deriving Repr, DecidableEq

def Element.isPath (element : Element) : Bool :=
  element.tag == "path"

structure Drawing where
  source : String
  elements : List Element
  /-- Where in the list the element with an id stands. -/
  positions : List (String × Nat)
  width : Option String
  height : Option String
  /-- The path data that the tag at a place is to be written with. -/
  rewrites : List (Nat × String)
deriving Repr, DecidableEq

namespace Drawing

/-- The attributes of a tag that matter to a drawing. -/
structure Marks where
  id : Option String
  data : Option String
  width : Option String
  height : Option String
deriving Repr, DecidableEq

def readValue (item : Attribute) : Except DrawingError (Option String) :=
  match item.value with
  | .ok value => .ok (some (String.ofList value))
  | .error fault => .error (.reference fault)

/-- Only values that matter are read, so references elsewhere may be anything. -/
def Marks.add (marks : Marks) (item : Attribute) : Except DrawingError Marks :=
  if item.key = "id".toList then return { marks with id := ← readValue item }
  else if item.key = "d".toList then return { marks with data := ← readValue item }
  else if item.key = "width".toList then return { marks with width := ← readValue item }
  else if item.key = "height".toList then return { marks with height := ← readValue item }
  else return marks

def Marks.ofTag (tag : Tag) : Except DrawingError Marks :=
  (tag.attributes.mapFault DrawingError.attributes).fold Marks.add ⟨none, none, none, none⟩

/-- The size that the root element gives. -/
structure Size where
  width : Option String
  height : Option String
deriving Repr, DecidableEq

/-- What is known after some of the tags. -/
structure Index where
  tags : Nat
  root : Option Size
  elements : List Element
  positions : List (String × Nat)
deriving Repr, DecidableEq

namespace Index

def empty : Index :=
  ⟨0, none, [], []⟩

/-- The size so far; the first tag decides it and must be that of a drawing. -/
def size (index : Index) (tag : Tag) (marks : Marks) : Except DrawingError Size :=
  match index.root with
  | some size => .ok size
  | none =>
    if tag.localName = "svg".toList then .ok ⟨marks.width, marks.height⟩ else .error .missingRoot

/-- Lists another element, which counts when it has an id that is new. -/
def list (index : Index) (tag : Tag) (marks : Marks) : Index :=
  match marks.id with
  | none => index
  | some id =>
    if (index.positions.lookup id).isSome then index
    else { index with
      elements := index.elements ++ [⟨id, String.ofList tag.localName, index.tags, marks.data⟩]
      positions := index.positions ++ [(id, index.elements.length)] }

def addTag (index : Index) (tag : Tag) : Except DrawingError Index := do
  let marks ← Marks.ofTag tag
  let size ← index.size tag marks
  return { index.list tag marks with tags := index.tags + 1, root := some size }

def add (index : Index) (event : Event) : Except DrawingError Index :=
  match event.tag? with
  | some tag => index.addTag tag
  | none => .ok index

def ofEvents (events : Reading Event MarkupFault) : Except DrawingError Index :=
  (events.mapFault DrawingError.markup).fold add empty

end Index

def parse (source : String) : Except DrawingError Drawing := do
  let index ← Index.ofEvents (Event.scan source.toList)
  match index.root with
  | none => throw .missingRoot
  | some size => return ⟨source, index.elements, index.positions, size.width, size.height, []⟩

def element? (drawing : Drawing) (id : String) : Option Element := do
  drawing.elements[← drawing.positions.lookup id]?

/-- Some path data was replaced. -/
def isModified (drawing : Drawing) : Bool :=
  !drawing.rewrites.isEmpty

/-- Other path data for the tag at a place, instead of what it was to be written with before. -/
def rewrite (rewrites : List (Nat × String)) (place : Nat) (data : String) : List (Nat × String) :=
  (place, data) :: rewrites.filter fun entry => entry.1 != place

/-- Replaces the path data of the element at a position in the list. -/
def replaceAt (drawing : Drawing) (position : Nat) (data : String) : Drawing :=
  match drawing.elements[position]? with
  | none => drawing
  | some element => { drawing with
      elements := drawing.elements.set position { element with pathData := some data }
      rewrites := rewrite drawing.rewrites element.place data }

/-- Replaces the path data of the element with an id. -/
def setPathData (drawing : Drawing) (id data : String) : Except DrawingError Drawing :=
  match drawing.positions.lookup id with
  | none => .error (.unknownElement id)
  | some position => .ok (drawing.replaceAt position data)

end Drawing
end EnvelopeWarp
