namespace FrontEnd

/-- Lines count from one and columns from zero; the end column is the first one outside. -/
structure Span where
  line : Nat
  startColumn : Nat
  endColumn : Nat
  filename : String
  lineContent : String
  line_pos : 1 ≤ line
  start_le_end : startColumn ≤ endColumn
  deriving DecidableEq, Repr

namespace Span

inductive Invalid where
  | line (number : Int)
  | columns (first last : Int)
  deriving DecidableEq, Repr

def Invalid.message : Invalid → String
  | line number => s!"line must be >= 1, got {number}"
  | columns first last => s!"invalid column range {first}..{last}"

/-- The line is checked before the columns. -/
def make (line first last : Int) (filename lineContent : String) : Except Invalid Span :=
  if hl : 1 ≤ line then
    if hc : 0 ≤ first ∧ first ≤ last then
      .ok ⟨line.toNat, first.toNat, last.toNat, filename, lineContent, by omega, by omega⟩
    else .error (.columns first last)
  else .error (.line line)

def origin : Span :=
  ⟨1, 0, 0, "<unknown>", "", by decide, by decide⟩

def width (s : Span) : Nat :=
  s.endColumn - s.startColumn

def atEnd (s : Span) : Span :=
  { s with startColumn := s.endColumn, start_le_end := Nat.le_refl _ }

def describe (s : Span) : String :=
  s!"{s.filename}:{s.line}:{s.startColumn}"

end Span
end FrontEnd
