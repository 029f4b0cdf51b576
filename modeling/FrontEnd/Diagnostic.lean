import FrontEnd.Source.Span

namespace FrontEnd

inductive Style where
  | bright | dim | red | blue
  deriving DecidableEq, Repr

def Style.code : Style → String
  | .bright => "\x1b[1m"
  | .dim => "\x1b[2m"
  | .red => "\x1b[31m"
  | .blue => "\x1b[34m"

def Style.reset : String := "\x1b[0m"

structure Piece where
  styles : List Style
  text : String
  deriving DecidableEq, Repr

/-- An empty text is not styled, and the styles end with the piece. -/
def Piece.render (colored : Bool) (p : Piece) : String :=
  if colored && !p.styles.isEmpty && p.text != "" then
    String.join (p.styles.map Style.code) ++ p.text ++ Style.reset
  else p.text

structure Diagnostic where
  message : String
  span : Span
  severity : String
  phase : String
  code : Option String
  help : Option String
  suggestions : Option (List String)
  deriving DecidableEq, Repr

namespace Diagnostic

def label (d : Diagnostic) : String :=
  d.phase ++ " " ++ d.severity

def spaces (n : Nat) : String :=
  String.ofList (List.replicate n ' ')

/-- As wide as the line up to the span. Tabs stay, so that the carets stand under the text. -/
def padding (s : Span) : String :=
  let before := (s.lineContent.toList.take s.startColumn).map fun c =>
    if c = '\t' then '\t' else ' '
  String.ofList (before ++ List.replicate (s.startColumn - before.length) ' ')

/-- An empty span gets one caret too. -/
def carets (s : Span) : String :=
  String.ofList (List.replicate (max 1 s.width) '^')

def header (d : Diagnostic) : List Piece :=
  [⟨[.bright, .red], d.label ++ ": "⟩, ⟨[.red], d.message⟩] ++
    match d.code with
    | none | some "" => []
    | some code => [⟨[.dim], " [" ++ code ++ "]"⟩]

def excerpt (d : Diagnostic) : List (List Piece) :=
  let number := toString d.span.line
  let gutter : Piece := ⟨[.bright, .blue], spaces (number.length + 2) ++ "|"⟩
  [[⟨[.bright], "---> " ++ d.span.describe⟩],
    [gutter],
    [⟨[.bright, .blue], " " ++ number ++ " |"⟩, ⟨[], "    " ++ d.span.lineContent⟩],
    [gutter, ⟨[], "    " ++ padding d.span⟩,
      ⟨[.bright, .red], carets d.span ++ " " ++ d.message⟩],
    [gutter]]

def advice (d : Diagnostic) : List (List Piece) :=
  (match d.help with
    | none | some "" => []
    | some help => [[⟨[], "  help: " ++ help⟩]]) ++
  (d.suggestions.getD []).map fun suggestion => [⟨[], "    - " ++ suggestion⟩]

def layout (d : Diagnostic) : List (List Piece) :=
  d.header :: (d.excerpt ++ d.advice)

def renderLine (colored : Bool) (line : List Piece) : String :=
  String.join (line.map (Piece.render colored)) ++ "\n"

def render (colored : Bool) (d : Diagnostic) : String :=
  String.join (d.layout.map (renderLine colored))

end Diagnostic
end FrontEnd
