import EnvelopeWarp.Markup.Tag

/-! Markup as a sequence of events. An event is written back as it was read, up to blanks that
have no meaning in closing tags and document types. -/

namespace EnvelopeWarp

inductive Event where
  | text (content : List Char)
  /-- A reference in running text, without its marks. -/
  | reference (name : List Char)
  | comment (content : List Char)
  | data (content : List Char)
  | doctype (content : List Char)
  | instruction (content : List Char)
  | opening (tag : Tag)
  /-- An element without content, in a single tag. -/
  | single (tag : Tag)
  | closing (name : List Char)
deriving Repr, DecidableEq

namespace Event

def write : Event → List Char
  | text content => content
  | reference name => '&' :: name ++ [';']
  | comment content => "<!--".toList ++ content ++ "-->".toList
  | data content => "<![CDATA[".toList ++ content ++ "]]>".toList
  | doctype content => "<!DOCTYPE ".toList ++ content ++ ['>']
  | instruction content => "<?".toList ++ content ++ "?>".toList
  | opening tag => '<' :: tag.text ++ ['>']
  | single tag => '<' :: tag.text ++ "/>".toList
  | closing name => "</".toList ++ name ++ ['>']

/-- The tag of an event that starts an element. -/
def tag? : Event → Option Tag
  | opening tag => some tag
  | single tag => some tag
  | _ => none

/-- The same kind of event with another tag; events without a tag stay as they are. -/
def withTag (event : Event) (tag : Tag) : Event :=
  match event with
  | opening _ => opening tag
  | single _ => single tag
  | other => other

end Event
end EnvelopeWarp
