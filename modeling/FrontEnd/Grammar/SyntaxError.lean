import FrontEnd.Diagnostic
import FrontEnd.Token.Basic

namespace FrontEnd

def Kind.hints : Kind → List String
  | .colon => ["Add a colon ':' between the variable name and its type"]
  | .assign => ["Add an assignment operator '=' before the initial value"]
  | .identifier => ["Use a name made of letters, digits and '_'"]
  | _ => []

def Token.found (t : Token) : String :=
  if t.kind = .endOfInput then "end of input" else "'" ++ t.lexeme ++ "'"

inductive SyntaxError where
  | invalidStart (found : Token)
  | unexpected (expected : Kind) (context : String) (found : Token)
  | invalidOperator (found : Token)
  | unexpectedEnd (expected : String) (span : Span)
  /-- An expression inside more others than the limit allows. -/
  | tooDeep (found : Token)
  deriving DecidableEq, Repr

namespace SyntaxError

def codes : List (String × String) :=
  [("P001", "Invalid token at start of expression"), ("P002", "Expected token not found"),
    ("P003", "Invalid token in infix position"), ("P004", "Unexpected end of input"),
    ("P005", "Expression nested too deeply")]

def code : SyntaxError → String
  | invalidStart _ => "P001"
  | unexpected _ _ _ => "P002"
  | invalidOperator _ => "P003"
  | unexpectedEnd _ _ => "P004"
  | tooDeep _ => "P005"

/-- The token at fault. At the end of the input there is none to blame. -/
def token? : SyntaxError → Option Token
  | invalidStart found => some found
  | unexpected _ _ found => some found
  | invalidOperator found => some found
  | unexpectedEnd _ _ => none
  | tooDeep found => some found

def span : SyntaxError → Span
  | invalidStart found => found.span
  | unexpected _ _ found => found.span
  | invalidOperator found => found.span
  | unexpectedEnd _ span => span
  | tooDeep found => found.span

def message : SyntaxError → String
  | invalidStart found => "Invalid token at start of expression: " ++ found.found
  | unexpected expected context found =>
    "Expected " ++ expected.describe ++ (if context = "" then "" else " " ++ context) ++
      ", found " ++ found.found
  | invalidOperator found => "Invalid token in infix position: " ++ found.found
  | unexpectedEnd expected _ => "Unexpected end of input, expected " ++ expected
  | tooDeep _ => "Expression nested too deeply"

def help : SyntaxError → Option String
  | invalidStart _ =>
    some "An expression starts with a number, a string, an identifier or a declaration."
  | unexpectedEnd expected _ =>
    some ("The parser reached the end of the input while expecting " ++ expected ++ ".")
  | tooDeep _ => some "Split the chain of assignments or powers into separate statements."
  | _ => none

def suggestions : SyntaxError → Option (List String)
  | unexpected expected _ _ => some expected.hints
  | _ => none

def diagnostic (e : SyntaxError) : Diagnostic where
  message := e.message
  span := e.span
  severity := "error"
  phase := "parser"
  code := some e.code
  help := e.help
  suggestions := e.suggestions

end SyntaxError
end FrontEnd
