import FrontEnd.Scalar
import FrontEnd.Source.Span
import FrontEnd.Token.Spelling

namespace FrontEnd

structure Token where
  kind : Kind
  lexeme : String
  value : Scalar
  span : Span
  deriving DecidableEq, Repr

namespace Token

/-- Kind and text; the value only where it is not the text itself. -/
def describe (t : Token) : String :=
  let lexeme := Text.quoted t.lexeme
  if t.value = .null ∨ t.value = .text t.lexeme then t.kind.name ++ "(" ++ lexeme ++ ")"
  else t.kind.name ++ "(" ++ lexeme ++ " -> " ++ t.value.describe ++ ")"

end Token
end FrontEnd
