import FrontEnd.Source.Cursor
import FrontEnd.Source.Span
import FrontEnd.Text.Lines
import FrontEnd.Token.Spelling

namespace FrontEnd

structure Source where
  name : String
  text : List Char
  keywords : Keywords
  lines : Array String := Text.lines text
  lines_eq : lines = Text.lines text := by rfl

namespace Source

def ofText (text name : String) (keywords : Keywords) : Source where
  name := name
  text := text.toList
  keywords := keywords

def start (s : Source) : Cursor :=
  .ofText s.text

/-- Empty for a number that is no line of the source. -/
def line (s : Source) (number : Int) : String :=
  Text.lineAt s.lines number

def span (s : Source) (line first last : Int) : Except Span.Invalid Span :=
  Span.make line first last s.name (s.line line)

end Source
end FrontEnd
