import EnvelopeWarp.Pattern.Place

/-! Why a text is not a pattern that can be used, and where in the text this shows. -/

namespace EnvelopeWarp
namespace Pattern

inductive Fault where
  | edgeInClass
  | reversedRange
  | boundNotCharacter
  | openClass
  | countTooLarge
  | noCharacter
  | notHexadecimal
  | openEscape
  | unknownEscape
  | danglingNegation
  | repeatedFlag
  | repeatedNegation
  | openFlags
  | unknownFlag
  | repeatedName
  | emptyName
  | invalidName
  | openName
  | openGroup
  | unopenedGroup
  | nestedTooDeep
  | noCount
  | openCount
  | nothingToRepeat
  | openEdge
  | openEdgeOrCount
  | invalidProperty
  | backreference
  | lookAround
  /-- A character or a property where only bytes may stand. -/
  | characterInBytes
  /-- What the pattern finds might be no text. -/
  | notText
  | unknownProperty
  | unknownShorthand
  | unknownCase
deriving Repr, DecidableEq

/-- Groups and classes may not be nested deeper than this. -/
def depthLimit : Nat := 250

def Fault.message : Fault → String
  | edgeInClass => "invalid escape sequence found in character class"
  | reversedRange => "invalid character class range, the start must be <= the end"
  | boundNotCharacter => "invalid range boundary, must be a literal"
  | openClass => "unclosed character class"
  | countTooLarge => "decimal literal invalid"
  | noCharacter => "hexadecimal literal is not a Unicode scalar value"
  | notHexadecimal => "invalid hexadecimal digit"
  | openEscape => "incomplete escape sequence, reached end of pattern prematurely"
  | unknownEscape => "unrecognized escape sequence"
  | danglingNegation => "dangling flag negation operator"
  | repeatedFlag => "duplicate flag"
  | repeatedNegation => "flag negation operator repeated"
  | openFlags => "expected flag but got end of regex"
  | unknownFlag => "unrecognized flag"
  | repeatedName => "duplicate capture group name"
  | emptyName => "empty capture group name"
  | invalidName => "invalid capture group character"
  | openName => "unclosed capture group name"
  | openGroup => "unclosed group"
  | unopenedGroup => "unopened group"
  | nestedTooDeep =>
    "exceed the maximum number of nested parentheses/brackets (" ++ toString depthLimit ++ ")"
  | noCount => "repetition quantifier expects a valid decimal"
  | openCount => "unclosed counted repetition"
  | nothingToRepeat => "repetition operator missing expression"
  | openEdge =>
    "special word boundary assertion is either unclosed or contains an invalid character"
  | openEdgeOrCount =>
    "found either the beginning of a special word boundary or a bounded repetition on a \\b with " ++
    "an opening brace, but no closing brace"
  | invalidProperty => "invalid Unicode character class"
  | backreference => "backreferences are not supported"
  | lookAround => "look-around, including look-ahead and look-behind, is not supported"
  | characterInBytes => "Unicode not allowed here"
  | notText => "pattern can match invalid UTF-8"
  | unknownProperty => "Unicode property not found"
  | unknownShorthand =>
    "Unicode-aware Perl class not found (make sure the unicode-perl feature is enabled)"
  | unknownCase =>
    "Unicode-aware case insensitivity matching is not available (make sure the unicode-case " ++
    "feature is enabled)"

/-- A fault and its place. -/
structure Error where
  fault : Fault
  span : Span
  /-- What was written before and is now repeated. -/
  earlier : Option Span
deriving Repr, DecidableEq

def Error.ofFault (fault : Fault) (span : Span) : Error :=
  ⟨fault, span, none⟩

end Pattern
end EnvelopeWarp
