import FrontEnd.Diagnostic
import FrontEnd.Text.Printable

namespace FrontEnd

inductive LexicalError where
  | unknownCharacter (c : Char) (span : Span)
  | unterminatedString (span : Span)
  deriving DecidableEq, Repr

namespace LexicalError

def codes : List (String × String) :=
  [("L001", "Unknown character"), ("L002", "Unterminated string literal")]

def code : LexicalError → String
  | unknownCharacter _ _ => "L001"
  | unterminatedString _ => "L002"

def span : LexicalError → Span
  | unknownCharacter _ span => span
  | unterminatedString span => span

/-- A character is shown only if it can be printed. -/
def message : LexicalError → String
  | unknownCharacter c _ =>
    if Text.isPrintable c then "Unknown character '" ++ String.singleton c ++ "'"
    else "Unknown character"
  | unterminatedString span => s!"Unterminated string literal starting on line {span.line}"

def codePoint (c : Char) : String :=
  let digits := (Nat.toDigits 16 c.toNat).map Char.toUpper
  "U+" ++ String.ofList (List.replicate (4 - digits.length) '0' ++ digits)

def help : LexicalError → String
  | unknownCharacter c _ =>
    if Text.isPrintable c then
      "The character '" ++ String.singleton c ++ "' is not valid in Farpy source code."
    else s!"Non-printable character (Unicode: {codePoint c}) is not allowed."
  | unterminatedString _ => "String literals must be closed with a matching \" quote."

def suggestions : LexicalError → Option (List String)
  | unknownCharacter _ _ => none
  | unterminatedString _ => some ["Add a closing \" quote"]

def diagnostic (e : LexicalError) : Diagnostic where
  message := e.message
  span := e.span
  severity := "error"
  phase := "lexer"
  code := some e.code
  help := some e.help
  suggestions := e.suggestions

end LexicalError
end FrontEnd
