import FrontEnd.Json.Writer
import FrontEnd.Node.Basic

namespace FrontEnd.Node

def place (s : Span) : Json :=
  .object [("line", .scalar (.int s.line)), ("start_column", .scalar (.int s.startColumn)),
    ("end_column", .scalar (.int s.endColumn))]

def textField (s : String) : Json :=
  .scalar (.text s)

def viewOf (kind : String) (content : List (String × Json)) (span : Span) : Json :=
  .object (("kind", textField kind) :: (content ++ [("loc", place span)]))

mutual

def view? : Node → Option Json
  | number span value => some (viewOf "number" [("value", .scalar value)] span)
  | string span value => some (viewOf "string" [("value", .scalar value)] span)
  | identifier span name => some (viewOf "identifier" [("value", textField name)] span)
  | binary span operator left right => do
    let left ← childView? left
    let right ← childView? right
    return viewOf "binaryOp" [("operator", textField operator), ("left", left), ("right", right)]
      span
  | declaration span name isMutable initializer typeName => do
    let value ← childView? initializer
    return viewOf "varDeclaration"
      [("identifier", textField name), ("mutable", .scalar (.bool isMutable)),
        ("type", (typeName.map textField).getD (.scalar .null)), ("value", value)] span
  | bare _ => none

def childView? : Option Node → Option Json
  | none => some (.scalar .null)
  | some node => view? node

end

mutual

/-- Whether a tree can be walked with no more than so many of its nodes open at once. -/
def opensWithin : Nat → Node → Bool
  | 0, _ => false
  | limit + 1, binary _ _ left right => childOpensWithin limit left && childOpensWithin limit right
  | limit + 1, declaration _ _ _ initializer _ => childOpensWithin limit initializer
  | _ + 1, _ => true

def childOpensWithin : Nat → Option Node → Bool
  | _, none => true
  | limit, some node => opensWithin limit node

end

/-- The whole program as a text, unless a bare node is in it. -/
def dump? (layout : Json.Layout) (nodes : List Node) : Option String :=
  (nodes.mapM view?).map fun views => Json.text layout (.array views)

end FrontEnd.Node
