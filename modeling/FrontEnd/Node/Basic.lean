import FrontEnd.Scalar
import FrontEnd.Source.Span

namespace FrontEnd

/-- A child may be missing, and a bare node has no content. -/
inductive Node where
  | number (span : Span) (value : Scalar)
  | string (span : Span) (value : Scalar)
  | identifier (span : Span) (name : String)
  | binary (span : Span) (operator : String) (left right : Option Node)
  | declaration (span : Span) (name : String) (isMutable : Bool) (initializer : Option Node)
      (typeName : Option String)
  | bare (span : Span)

namespace Node

def span : Node → Span
  | number span _ => span
  | string span _ => span
  | identifier span _ => span
  | binary span _ _ _ => span
  | declaration span _ _ _ _ => span
  | bare span => span

def kind? : Node → Option String
  | number _ _ => some "number"
  | string _ _ => some "string"
  | identifier _ _ => some "identifier"
  | binary _ _ _ _ => some "binaryOp"
  | declaration _ _ _ _ _ => some "varDeclaration"
  | bare _ => none

def children : Node → List Node
  | binary _ _ left right => left.toList ++ right.toList
  | declaration _ _ _ initializer _ => initializer.toList
  | _ => []

def describe? (n : Node) : Option String :=
  n.kind?.map fun kind => kind ++ "@" ++ n.span.describe

mutual

/-- Same shape, same places, and values that are equal as the language sees them. -/
def same : Node → Node → Bool
  | number s v, number s' v' => s == s' && v.same v'
  | string s v, string s' v' => s == s' && v.same v'
  | identifier s n, identifier s' n' => s == s' && n == n'
  | binary s o l r, binary s' o' l' r' => s == s' && o == o' && sameChild l l' && sameChild r r'
  | declaration s n m i t, declaration s' n' m' i' t' =>
    s == s' && n == n' && m == m' && sameChild i i' && t == t'
  | bare s, bare s' => s == s'
  | _, _ => false

def sameChild : Option Node → Option Node → Bool
  | none, none => true
  | some a, some b => same a b
  | _, _ => false

end

def sameAll : List Node → List Node → Bool
  | [], [] => true
  | a :: as, b :: bs => same a b && sameAll as bs
  | _, _ => false

end Node
end FrontEnd
