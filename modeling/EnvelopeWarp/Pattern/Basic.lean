import EnvelopeWarp.Pattern.Depth
import EnvelopeWarp.Pattern.Meaning
import EnvelopeWarp.Pattern.Parsing
import EnvelopeWarp.Pattern.Report

/-! Whether a text is a pattern that can be used. First all of it must be read, then it must not be nested
too deep, then all its parts must mean something, and at last no place in it may hang on words. -/

namespace EnvelopeWarp
namespace Pattern

/-- Why a pattern cannot be used. -/
inductive Refusal where
  | faulty (text : List Char) (error : Error)
  | wordEdge
deriving Repr, DecidableEq

/-- What is said about a refusal, the nearest first. -/
def Refusal.causes : Refusal → List String
  | faulty text error => ["error building NFA", "error parsing regex", error.report text]
  | wordEdge =>
    ["unsupported regex feature for DFAs: cannot build DFAs for regexes with Unicode word " ++
      "boundaries; switch to ASCII word boundaries, or heuristically enable Unicode word boundaries " ++
      "or use a different regex engine"]

/-- The single parts of a pattern that can be understood, with their modes. -/
def leaves (text : List Char) : Except Error (List (Mode × Leaf)) := do
  let tree ← Tree.parse text
  match tree.tooDeep? depthLimit with
  | some span => throw (.ofFault .nestedTooDeep span)
  | none =>
    let leaves := (tree.leaves .standard).2
    leaves.forM fun leaf => leaf.2.check leaf.1
    return leaves

def check (text : List Char) : Except Refusal Unit :=
  match leaves text with
  | .error error => .error (.faulty text error)
  | .ok leaves =>
    if leaves.any fun leaf => leaf.2.isWordEdge leaf.1 then .error .wordEdge else .ok ()

end Pattern
end EnvelopeWarp
